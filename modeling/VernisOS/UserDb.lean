import Mathlib.Data.List.TakeWhile
import VernisOS.Sha256

/-!
# The user database

`kernel/security/userdb.c`, once `userdb_init` has read the records. The number of a user is
the place of the record. A name is read up to its NUL, in the bytes that follow the record if
its own 32 have none.
-/

namespace VernisOS

/-- The string that starts at the first of these bytes. -/
def cStr (bytes : List UInt8) : List UInt8 :=
  bytes.takeWhile (· ≠ 0)

theorem length_cStr_le (bytes : List UInt8) : (cStr bytes).length ≤ bytes.length :=
  ( List.takeWhile_prefix _).length_le

theorem zero_notMem_cStr (bytes : List UInt8) : 0 ∉ cStr bytes := by
  intro h
  simpa [cStr] using List.mem_takeWhile_imp h

/-- A string that ends at its first zero. -/
theorem cStr_eq_self {str : List UInt8} (h : 0 ∉ str) : cStr str = str := by
  refine List.takeWhile_eq_self_iff.mpr fun c hc => ?_
  have hne : c ≠ 0 := fun h0 => h (h0 ▸ hc)
  simpa using hne

theorem cStr_append_zero {str : List UInt8} (h : 0 ∉ str) (rest : List UInt8) :
    cStr (str ++ 0 :: rest) = str := by
  rw [cStr, List.takeWhile_append_of_pos, List.takeWhile_cons_of_neg (by simp), List.append_nil]
  intro c hc
  have hne : c ≠ 0 := fun h0 => h (h0 ▸ hc)
  simpa using hne

/-- `USER_FLAG_ACTIVE`. -/
def userFlagActive : UInt8 := 0x01

/-- `USER_FLAG_LOCKED`. -/
def userFlagLocked : UInt8 := 0x02

/-- `USER_FLAG_NO_PASSWORD`. -/
def userFlagNoPassword : UInt8 := 0x04

/-- `UserRecord`. -/
structure UserRecord where
  username : Vector UInt8 32
  passwordHash : Vector UInt8 32
  privilege : UInt8
  flags : UInt8

namespace UserRecord

/-- The packed record. -/
def toBytes (u : UserRecord) : List UInt8 :=
  u.username.toList ++ u.passwordHash.toList ++ [u.privilege, u.flags]

def active (u : UserRecord) : Bool :=
  u.flags &&& userFlagActive != 0

def locked (u : UserRecord) : Bool :=
  u.flags &&& userFlagLocked != 0

def noPassword (u : UserRecord) : Bool :=
  u.flags &&& userFlagNoPassword != 0

end UserRecord

/-- `USERDB_MAX_USERS`. -/
def userdbMaxUsers : ℕ := 8

/-- `g_users` up to `g_user_count`, and `g_userdb_ready`. -/
structure UserDb where
  users : List UserRecord
  ready : Bool
  fits : users.length ≤ userdbMaxUsers

/-- The name of the first of these records. -/
def userName (users : List UserRecord) : List UInt8 :=
  cStr (users.flatMap UserRecord.toBytes)

/-- The place of the first record with this name. -/
def userIndex (username : List UInt8) : List UserRecord → Option ℕ
  | [] => none
  | u :: users =>
    if userName (u :: users) = username then some 0 else (userIndex username users).map (· + 1)

namespace UserDb

/-- `userdb_find_uid`, `none` for -1. -/
def findUid (db : UserDb) (username : List UInt8) : Option ℕ :=
  if !db.ready then none else userIndex username db.users

/-- `userdb_find_user`. -/
def findUser (db : UserDb) (username : List UInt8) : Option UserRecord :=
  (db.findUid username).bind fun i => db.users[i]?

/-- `userdb_authenticate` : the privilege, or -1. -/
def authenticate (db : UserDb) (username password : List UInt8) : Int :=
  match db.findUser username with
  | none => -1
  | some user =>
    if !user.active then -1
    else if user.locked then -1
    else if user.noPassword then user.privilege.toNat
    else if sha256Compare (sha256Hash password) user.passwordHash.toList = 0 then
      user.privilege.toNat
    else -1

end UserDb

theorem userIndex_some {username : List UInt8} {users : List UserRecord} {i : ℕ}
    (h : userIndex username users = some i) :
    ∃ u, users[i]? = some u ∧ userName (users.drop i) = username := by
  induction users generalizing i with
  | nil => cases h
  | cons u users ih =>
    unfold userIndex at h
    split at h
    · rename_i hname
      obtain rfl := Option.some.inj h
      exact ⟨u, rfl, hname⟩
    · obtain ⟨j, hj, rfl⟩ := Option.map_eq_some_iff.mp h
      obtain ⟨v, hv, hname⟩ := ih hj
      exact ⟨v, by simpa using hv, by simpa using hname⟩

/-- A user that is found is the record at the user's number. -/
theorem UserDb.findUser_some {db : UserDb} {username : List UInt8} {user : UserRecord}
    (h : db.findUser username = some user) :
    ∃ i, db.findUid username = some i ∧ db.users[i]? = some user ∧
      userName (db.users.drop i) = username := by
  obtain ⟨i, hi, hu⟩ := Option.bind_eq_some_iff.mp h
  refine ⟨i, hi, hu, ?_⟩
  unfold UserDb.findUid at hi
  split at hi
  · cases hi
  · obtain ⟨-, -, hname⟩ := userIndex_some hi
    exact hname

/-- A record accepts a password : it is active, not locked, and has no password or the hash
of this one. -/
def UserRecord.Accepts (u : UserRecord) (password : List UInt8) : Prop :=
  u.active = true ∧ u.locked = false ∧
    (u.noPassword = true ∨ sha256Hash password = u.passwordHash.toList)

theorem UserDb.authenticate_nonneg {db : UserDb} {username password : List UInt8}
    {user : UserRecord} (hu : db.findUser username = some user)
    (h : ¬ db.authenticate username password < 0) : user.Accepts password := by
  unfold UserDb.authenticate at h
  rw [hu] at h
  dsimp only at h
  split at h
  · exact absurd (by decide) h
  · split at h
    · exact absurd (by decide) h
    · split at h
      · rename_i ha hl hn
        exact ⟨by simpa using ha, by simpa using hl, Or.inl hn⟩
      · split at h
        · rename_i ha hl _ hc
          refine ⟨by simpa using ha, by simpa using hl, Or.inr ?_⟩
          exact (sha256Compare_eq_zero (by simp [length_sha256Hash])).mp hc
        · exact absurd (by decide) h

end VernisOS
