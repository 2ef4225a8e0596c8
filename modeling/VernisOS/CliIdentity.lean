import VernisOS.CliSteps
import VernisOS.Lib.Run

/-!
# Identity of a session

`cli_strcpy` writes no NUL behind the name it copies, `logout` leaves the number of the user,
and a `su` of root does not restore the session (`not_session_identity`). As long as no line
comes to that, the session is one user after every line, and the one it was after a `su`
(`session_identity`).
-/

open Traced Run

namespace VernisOS

/-! ## Names -/

theorem take_length_cStr (bytes : List UInt8) : bytes.take (cStr bytes).length = cStr bytes :=
  List.prefix_iff_eq_take.mp (List.takeWhile_prefix _) |>.symm

/-- Characters up to a NUL are the string. -/
theorem cStr_of_take {bytes str : List UInt8} (h : 0 ∉ str)
    (htake : bytes.take str.length = str) (hnul : bytes[str.length]? = some 0) :
    cStr bytes = str := by
  have hsplit := List.take_append_drop str.length bytes
  rw [htake, List.drop_eq_getElem?_toList_append, hnul] at hsplit
  rw [← hsplit]
  exact cStr_append_zero h _

/-- The byte behind the string is its NUL. -/
theorem getElem?_length_cStr {bytes : List UInt8} (h : 0 ∈ bytes) :
    bytes[(cStr bytes).length]? = some 0 := by
  induction bytes with
  | nil => simp at h
  | cons c bytes ih =>
    by_cases hc : c = 0
    · simp [cStr, hc]
    · rw [show cStr (c :: bytes) = c :: cStr bytes from List.takeWhile_cons_of_pos (by simpa using hc)]
      simpa using ih ((List.mem_cons.mp h).resolve_left (Ne.symm hc))

namespace CliName

theorem length_str_le (n : CliName) : n.str.length ≤ 31 := by
  by_contra hlt
  have hmem : n.str[31]? = some 0 := by
    rw [str, ← take_length_cStr, List.getElem?_take_of_lt (by simpa [str] using hlt)]
    exact n.ended
  exact zero_notMem_cStr n.bytes (List.mem_of_getElem? hmem)

theorem nul (n : CliName) : n.bytes[n.str.length]? = some 0 :=
  getElem?_length_cStr (List.mem_of_getElem? n.ended)

/-- Behind the characters that are copied every byte but the last stays. -/
theorem getElem?_strcpy {src : List UInt8} (h : 0 ∉ src) (n : CliName) {i : ℕ}
    (hi : src.length ≤ i) (hlast : i ≠ 31) : (n.strcpy src).bytes[i]? = n.bytes[i]? := by
  simp only [strcpy, cliStrcpy, cStr_eq_self h]
  rw [List.getElem?_set_ne (by omega), List.getElem?_append_right (by simp; omega),
    List.getElem?_drop]
  congr 1
  simp only [List.length_take]
  omega

theorem take_strcpy {src : List UInt8} (h : 0 ∉ src) (n : CliName) (hsrc : src.length ≤ 31) :
    (n.strcpy src).bytes.take src.length = src := by
  have htake : src.take (32 - 1) = src := List.take_of_length_le (by omega)
  simp only [strcpy, cliStrcpy, cStr_eq_self h, htake]
  rw [List.take_set_of_le hsrc, List.take_left']
  rfl

/-- `cli_strcpy(n, src, 32)` leaves the whole name and its NUL. -/
def CopiesWhole (n : CliName) (src : List UInt8) : Prop :=
  src.length ≤ 31 ∧ (src.length = 31 ∨ n.bytes[src.length]? = some 0)

instance (n : CliName) (src : List UInt8) : Decidable (n.CopiesWhole src) :=
  inferInstanceAs (Decidable (_ ∧ _))

theorem str_strcpy {src : List UInt8} (h : 0 ∉ src) {n : CliName} (hcopies : n.CopiesWhole src) :
    (n.strcpy src).str = src := by
  refine cStr_of_take h (take_strcpy h n hcopies.1) ?_
  by_cases hlast : src.length = 31
  · rw [hlast]
    exact (n.strcpy src).ended
  · rw [getElem?_strcpy h n le_rfl hlast]
    exact hcopies.2.resolve_left hlast

/-- What the name begins with may be copied over it. -/
theorem strcpy_of_prefix {src : List UInt8} (h : 0 ∉ src) {n : CliName} (hp : src <+: n.str) :
    n.strcpy src = n := by
  have hsrc : src.length ≤ 31 := hp.length_le.trans n.length_str_le
  have htake : src.take (32 - 1) = src := List.take_of_length_le (by omega)
  have hbytes : n.bytes.take src.length = src :=
    (List.prefix_iff_eq_take.mp (hp.trans (List.takeWhile_prefix _))).symm
  have hwhole : src ++ n.bytes.drop src.length = n.bytes := by
    rw [show src ++ n.bytes.drop src.length = n.bytes.take src.length ++ n.bytes.drop src.length by
      rw [hbytes], List.take_append_drop]
  have hsame : (n.strcpy src).bytes = n.bytes := by
    simp only [strcpy, cliStrcpy, cStr_eq_self h, htake]
    rw [hwhole]
    obtain ⟨hlast, hnul⟩ := List.getElem?_eq_some_iff.mp n.ended
    exact (congrArg (n.bytes.set 31) hnul.symm).trans (List.set_getElem_self hlast)
  cases n
  simpa [strcpy] using hsame

/-- A NUL stays where no longer name is copied. -/
theorem nul_strcpy {src : List UInt8} (h : 0 ∉ src) {n : CliName} {i : ℕ}
    (hnul : n.bytes[i]? = some 0) (hi : src.length ≤ i ∨ i = 31) :
    (n.strcpy src).bytes[i]? = some 0 := by
  by_cases hlast : i = 31
  · rw [hlast]
    exact (n.strcpy src).ended
  · rw [getElem?_strcpy h n (hi.resolve_right hlast) hlast]
    exact hnul

end CliName

/-! ## Users -/

/-- The session is the record at its number, with the name and the privilege of it. -/
def IsUser (s : Shell) : Prop :=
  ∃ user ∈ s.db.users[s.session.uid.toNat]?,
    userName (s.db.users.drop s.session.uid.toNat) = s.session.username.str ∧
    user.privilege = s.session.privilege

instance (s : Shell) : Decidable (IsUser s) :=
  inferInstanceAs (Decidable (∃ user ∈ _, _))

/-- The name, the number and the privilege are the same. -/
structure SameIdentity (s s' : Shell) : Prop where
  db : s'.db = s.db
  uid : s'.session.uid = s.session.uid
  username : s'.session.username.str = s.session.username.str
  privilege : s'.session.privilege = s.session.privilege

theorem SameUser.identity {s s' : Shell} (h : SameUser s s') : SameIdentity s s' :=
  ⟨h.db, h.uid, congrArg CliName.str h.username, h.privilege⟩

theorem SameIdentity.trans {s s' s'' : Shell} (h : SameIdentity s s') (h' : SameIdentity s' s'') :
    SameIdentity s s'' :=
  ⟨h'.db.trans h.db, h'.uid.trans h.uid, h'.username.trans h.username,
    h'.privilege.trans h.privilege⟩

theorem IsUser.of_same {s s' : Shell} (h : IsUser s) (hsame : SameIdentity s s') : IsUser s' := by
  rw [IsUser, hsame.db, hsame.uid, hsame.username, hsame.privilege]
  exact h

/-- The name of the session `s`. -/
def Shell.name (s : Shell) : List UInt8 :=
  s.session.username.str

/-- A `login` of the user `name` keeps what is promised : by itself the whole name is copied;
in the `su` of a root session `c` the user is the one that `c` is; in another `su` no byte is
written behind the name that is restored. -/
def LoginKeeps (s : Shell) (name : List UInt8) (user : UserRecord) : Option Shell → Prop
  | none => s.session.username.CopiesWhole name
  | some c =>
    if c.session.privilege = cliPrivRoot then
      name = c.name ∧ s.db.findUid name = some c.session.uid.toNat ∧ user.privilege = cliPrivRoot
    else name.length ≤ c.name.length ∨ c.name.length = 31

instance (s : Shell) (name : List UInt8) (user : UserRecord) (u : Option Shell) :
    Decidable (LoginKeeps s name user u) :=
  match u with
  | none => inferInstanceAs (Decidable (CliName.CopiesWhole _ _))
  | some c => inferInstanceAs (Decidable
      (if c.session.privilege = cliPrivRoot then _ ∧ _ ∧ _ else _ ∨ _))

/-- A `logout` keeps it : the session is called root already, and by itself also has the
privilege of root. -/
def LogoutKeeps (s : Shell) : Option Shell → Prop
  | none => strRoot <+: s.name ∧ s.session.privilege = cliPrivRoot
  | some c => c.session.privilege = cliPrivRoot → strRoot <+: c.name

instance (s : Shell) (u : Option Shell) : Decidable (LogoutKeeps s u) :=
  match u with
  | none => inferInstanceAs (Decidable (_ ∧ _))
  | some _ => inferInstanceAs (Decidable (_ → _))

/-- A `su` keeps it : the name is not shorter than root, and its copy is whole. -/
def SuKeeps (env : CliEnv) (s : Shell) : Prop :=
  strRoot.length ≤ s.name.length ∧ (env.savedName (suState s)).CopiesWhole s.name

instance (env : CliEnv) (s : Shell) : Decidable (SuKeeps env s) :=
  inferInstanceAs (Decidable (_ ∧ _))

/-- The call of a handler does not come to a defect. -/
def KeepsIdentity (env : CliEnv) : ShellEvent → Prop
  | .subCommand _ _ => True
  | .ran b cmd s under =>
    (b.handler = .login → ∀ user ∈ loginUser s cmd, LoginKeeps s (cmd.arg 1) user under) ∧
    (b.handler = .logout → s.atDefaultRoot = false → LogoutKeeps s under) ∧
    (b.handler = .su → under.isNone = true → suElevates s cmd = true → SuKeeps env s)

instance (env : CliEnv) : DecidablePred (KeepsIdentity env) := fun e =>
  match e with
  | .subCommand _ _ => .isTrue trivial
  | .ran _ _ _ _ => inferInstanceAs (Decidable (_ ∧ _ ∧ _))

/-! ## Handlers -/

/-- What is asked of the session in the `su` of `c`, or outside of one. -/
def Before (s : Shell) : Option Shell → Prop
  | none => IsUser s
  | some c =>
    if c.session.privilege = cliPrivRoot then SameIdentity c s
    else s.session.privilege = cliPrivRoot ∧ strRoot.length ≤ c.name.length ∧
      s.session.username.bytes[c.name.length]? = some 0

/-- What a command leaves of it. -/
def Afterwards (s : Shell) : Option Shell → Prop
  | none => IsUser s
  | some c =>
    if c.session.privilege = cliPrivRoot then SameIdentity c s
    else s.session.username.bytes[c.name.length]? = some 0

/-- The event as one of the `su` of `c`. -/
def ShellEvent.under : Option Shell → ShellEvent → ShellEvent
  | none => id
  | some c => ShellEvent.within c

/-- The users stay, and what is asked is kept by events that keep it. -/
def IdentityKept (env : CliEnv) (u : Option Shell) (s : Shell) (t : List ShellEvent)
    (s' : Shell) : Prop :=
  s'.db = s.db ∧ ((∀ e ∈ t, KeepsIdentity env (e.under u)) → Before s u → Afterwards s' u)

theorem Before.afterwards {u : Option Shell} {s s' : Shell} (h : Before s u)
    (hsame : SameUser s s') : Afterwards s' u := by
  cases u with
  | none => exact IsUser.of_same h hsame.identity
  | some c =>
    by_cases hroot : c.session.privilege = cliPrivRoot
    · simp only [Before, Afterwards, if_pos hroot] at h ⊢
      exact h.trans hsame.identity
    · simp only [Before, Afterwards, if_neg hroot, hsame.username] at h ⊢
      exact h.2.2

theorem Before.of_same {u : Option Shell} {s s' : Shell} (h : Before s u)
    (hsame : SameUser s s') : Before s' u := by
  cases u with
  | none => exact IsUser.of_same h hsame.identity
  | some c =>
    by_cases hroot : c.session.privilege = cliPrivRoot
    · simp only [Before, if_pos hroot] at h ⊢
      exact h.trans hsame.identity
    · simp only [Before, if_neg hroot, hsame.username, hsame.privilege] at h ⊢
      exact h

theorem Afterwards.of_same {u : Option Shell} {s s' : Shell} (h : Afterwards s u)
    (hsame : SameUser s s') : Afterwards s' u := by
  cases u with
  | none => exact IsUser.of_same h hsame.identity
  | some c =>
    by_cases hroot : c.session.privilege = cliPrivRoot
    · simp only [Afterwards, if_pos hroot] at h ⊢
      exact h.trans hsame.identity
    · simp only [Afterwards, if_neg hroot, hsame.username] at h ⊢
      exact h

theorem userRelation_identityKept (env : CliEnv) (u : Option Shell) :
    UserRelation (IdentityKept env u) where
  quiet h := ⟨h.db, fun _ hb => hb.afterwards h⟩
  before h _ h' := by
    refine ⟨h'.1.trans h.db, fun ht hb => h'.2 (fun e he => ?_) (hb.of_same h)⟩
    exact ht e (List.mem_append_right _ he)
  after h h' := ⟨h'.db.trans h.1, fun ht hb => (h.2 ht hb).of_same h'⟩

variable {env : CliEnv} {s : Shell}

/-- A `login` that goes through, in the state `s₀` in which it has read the password. -/
theorem identityKept_login {u : Option Shell} {cmd : ParsedCommand} {user : UserRecord}
    {s₀ : Shell} (huser : loginUser s cmd = some user) (hs : SameUser s s₀)
    (hkeeps : LoginKeeps s (cmd.arg 1) user u) (h : Before s u) :
    Afterwards (cliSwitchUser (cmd.arg 1) user s₀).state u := by
  obtain ⟨i, hi, hrec, hname⟩ := UserDb.findUser_some (loginUser_some huser).found
  have hz : 0 ∉ cmd.arg 1 := by
    rw [← hname]
    exact zero_notMem_cStr _
  have hlen : i < s.db.users.length := (List.getElem?_eq_some_iff.mp hrec).1
  have hfits := s.db.fits
  unfold userdbMaxUsers at hfits
  have huid : (UInt32.ofNat i).toNat = i :=
    UInt32.toNat_ofNat_of_lt' (Nat.lt_of_lt_of_le hlen (hfits.trans (by decide)))
  have hstate : (cliSwitchUser (cmd.arg 1) user s₀).state =
      (s₀.setSession { s₀.session with
        username := s.session.username.strcpy (cmd.arg 1)
        privilege := user.privilege
        uid := UInt32.ofNat i }).writeRaw
          (Bytes.utf8 "Logged in as " ++ cmd.arg 1 ++ Bytes.utf8 "\n") := by
    rw [cliSwitchUser, update_bind, cliReply, cliPrint, update_bind, pure_apply]
    simp only [hs.db, hs.username, hi]
  rw [hstate]
  cases u with
  | none =>
    have hstr := CliName.str_strcpy hz hkeeps
    refine ⟨user, ?_, ?_, rfl⟩
    · change s₀.db.users[(UInt32.ofNat i).toNat]? = some user
      rw [huid, hs.db]
      exact hrec
    · change userName (s₀.db.users.drop (UInt32.ofNat i).toNat) = CliName.str _
      rw [huid, hs.db]
      exact hname.trans hstr.symm
  | some c =>
    by_cases hroot : c.session.privilege = cliPrivRoot
    · simp only [Before, LoginKeeps, Afterwards, if_pos hroot] at h hkeeps ⊢
      obtain ⟨hself, hc, hpriv⟩ := hkeeps
      obtain rfl := Option.some.inj (hi.symm.trans hc)
      have hstay : s.session.username.strcpy (cmd.arg 1) = s.session.username := by
        refine CliName.strcpy_of_prefix hz ?_
        rw [hself, h.username]
        exact List.prefix_refl _
      refine ⟨hs.db.trans h.db, UInt32.ofNat_toNat, ?_, hpriv.trans hroot.symm⟩
      exact (congrArg CliName.str hstay).trans h.username
    · simp only [Before, LoginKeeps, Afterwards, if_neg hroot] at h hkeeps ⊢
      exact CliName.nul_strcpy hz h.2.2 hkeeps

theorem zero_notMem_strRoot : (0 : UInt8) ∉ strRoot := by
  decide

/-- A `logout` that resets the session. -/
theorem identityKept_logout {u : Option Shell} {text : List UInt8} (hkeeps : LogoutKeeps s u)
    (h : Before s u) :
    Afterwards ((s.setSession { s.session with
      username := s.session.username.strcpy strRoot
      privilege := cliPrivRoot }).writeRaw text) u := by
  cases u with
  | none =>
    obtain ⟨hpre, hpriv⟩ := hkeeps
    have hstay := CliName.strcpy_of_prefix zero_notMem_strRoot hpre
    exact IsUser.of_same h ⟨rfl, rfl, congrArg CliName.str hstay, hpriv.symm⟩
  | some c =>
    by_cases hroot : c.session.privilege = cliPrivRoot
    · simp only [Before, Afterwards, if_pos hroot] at h ⊢
      have hpre : strRoot <+: s.session.username.str := h.username ▸ hkeeps hroot
      have hstay := CliName.strcpy_of_prefix zero_notMem_strRoot hpre
      exact h.trans ⟨rfl, rfl, congrArg CliName.str hstay, hroot.symm.trans h.privilege.symm⟩
    · simp only [Before, Afterwards, if_neg hroot] at h ⊢
      exact CliName.nul_strcpy zero_notMem_strRoot h.2.2 (Or.inl h.2.1)

variable {exec : ParsedCommand → ShellProg Int}

/-- The sub-command of a `su`, as one of the place `w`. -/
theorem identityKept_subCommand
    (hexec : ∀ u cmd s, Keeps (IdentityKept env u) (exec cmd) s) (before : Shell)
    {u w : Option Shell} (hw : ∀ e : ShellEvent, (e.within before).under u = e.under w)
    (cmd : ParsedCommand) (onError : Int) (s : Shell) :
    Keeps (fun s t s' => s'.db = s.db ∧ ((∀ e ∈ t, KeepsIdentity env (e.under u)) →
      Before s w → Afterwards s' w)) (cliSubCommand exec before cmd onError) s := by
  unfold cliSubCommand
  split
  · exact fun _ _ => ⟨rfl, fun _ h => h.afterwards (SameUser.refl s)⟩
  · rename_i sub _
    intro rc hrc
    rw [state_bind, record_bind] at hrc ⊢
    obtain ⟨hdb, hkept⟩ := hexec w sub s rc hrc
    refine ⟨hdb, fun ht h => hkept (fun e he => ?_) h⟩
    rw [← hw e]
    exact ht _ (List.mem_cons_of_mem _ (List.mem_map_of_mem he))

theorem under_within (c before : Shell) (e : ShellEvent) :
    (e.within before).under (some c) = e.under (some c) := by
  cases e <;> rfl

theorem suElevates_ne_root {cmd : ParsedCommand} (h : suElevates s cmd = true) :
    s.session.privilege ≠ cliPrivRoot := by
  intro hroot
  simp [suElevates, hroot] at h

/-- The session as `su` makes it root. -/
def Shell.elevated (s : Shell) : Shell :=
  s.setSession { s.session with
    privilege := cliPrivRoot
    uid := 0
    username := s.session.username.strcpy strRoot }

/-- The state `t` with the session of `s` restored, whose name was copied to `saved`. -/
def Shell.restored (s : Shell) (saved : CliName) (t : Shell) : Shell :=
  t.setSession { t.session with
    privilege := s.session.privilege
    uid := s.session.uid
    username := t.session.username.strcpy saved.str }

theorem Shell.db_elevated (s : Shell) : s.elevated.db = s.db :=
  rfl

theorem Shell.db_restored (s : Shell) (saved : CliName) (t : Shell) :
    (Shell.restored s saved t).db = t.db :=
  rfl

theorem elevate_apply (env : CliEnv) (exec : ParsedCommand → ShellProg Int) (cmd : ParsedCommand)
    (s s₀ : Shell) {rc : Int} (hrc : (cliElevate env exec s cmd s₀).value = some rc) :
    ∃ r, (cliSubCommand exec s cmd cliOk s₀.elevated).value = some r ∧
      cliElevate env exec s cmd s₀ =
        ⟨some r, Shell.restored s₀ ((env.savedName s₀).strcpy s₀.session.username.str)
          (cliSubCommand exec s cmd cliOk s₀.elevated).state,
        (cliSubCommand exec s cmd cliOk s₀.elevated).trace⟩ := by
  rw [cliElevate, state_bind, update_bind] at hrc ⊢
  obtain ⟨r, hr, -⟩ := value_bind hrc
  refine ⟨r, hr, ?_⟩
  rw [bind_some hr, update_bind, pure_apply, List.append_nil]
  unfold Shell.restored Shell.elevated
  rfl

theorem str_savedName {n : CliName} {saved : CliName} (h : saved.CopiesWhole n.str) :
    (saved.strcpy n.str).str = n.str :=
  CliName.str_strcpy (zero_notMem_cStr _) h

/-- The name is restored if its NUL is still there. -/
theorem sameIdentity_restored {s₀ t : Shell} {saved : CliName} (hs : SameUser s s₀)
    (hdb : t.db = s₀.db) (hsaved : saved.CopiesWhole s.name)
    (hnul : t.session.username.bytes[s.name.length]? = some 0) :
    SameIdentity s (Shell.restored s₀ (saved.strcpy s₀.session.username.str) t) := by
  refine ⟨hdb.trans hs.db, hs.uid, ?_, hs.privilege⟩
  have hstr : (saved.strcpy s₀.session.username.str).str = s.name := by
    rw [hs.username]
    exact str_savedName hsaved
  change (t.session.username.strcpy _).str = _
  rw [hstr]
  exact CliName.str_strcpy (zero_notMem_cStr _) ⟨hsaved.1, Or.inr hnul⟩

theorem before_elevated {s₀ : Shell} (hs : SameUser s s₀)
    (hne : s.session.privilege ≠ cliPrivRoot) (hlen : strRoot.length ≤ s.name.length) :
    Before s₀.elevated (some s) := by
  simp only [Before, if_neg hne]
  refine ⟨rfl, hlen, CliName.nul_strcpy zero_notMem_strRoot ?_ (Or.inl hlen)⟩
  rw [hs.username]
  exact s.session.username.nul

/-- A `su` outside of one leaves the session as it was. -/
theorem sameIdentity_su (hexec : ∀ u cmd s, Keeps (IdentityKept env u) (exec cmd) s)
    {cmd : ParsedCommand} (hsu : suElevates s cmd = true → SuKeeps env s) {rc : Int}
    (hrc : (cliCmdSu env exec cmd s).value = some rc)
    (ht : ∀ e ∈ (cliCmdSu env exec cmd s).trace, KeepsIdentity env e) :
    SameIdentity s (cliCmdSu env exec cmd s).state := by
  have hsub := fun s' onError => identityKept_subCommand hexec s (u := none) (w := some s)
    (fun _ => rfl) cmd onError s'
  rcases su_cases env exec cmd s with ⟨-, hq⟩ | ⟨-, hroot, he⟩ | ⟨hel, he⟩
  · exact hq.2.identity
  · rw [he] at hrc ht ⊢
    have hbefore : Before s (some s) := by
      simp only [Before, if_pos hroot]
      exact (SameUser.refl s).identity
    have hafter := (hsub s _ rc hrc).2 ht hbefore
    simpa only [Afterwards, if_pos hroot] using hafter
  · obtain ⟨hlen, hsaved⟩ := hsu hel
    have hs := sameUser_suState s
    have hne := suElevates_ne_root hel
    rw [he] at hrc
    obtain ⟨r, hr, heq⟩ := elevate_apply env exec cmd s _ hrc
    rw [he, heq] at ht ⊢
    obtain ⟨hdb, hkept⟩ := hsub _ _ r hr
    have hnul := hkept ht (before_elevated hs hne hlen)
    simp only [Afterwards, if_neg hne] at hnul
    exact sameIdentity_restored hs hdb hsaved hnul

theorem identityKept_su (hexec : ∀ u cmd s, Keeps (IdentityKept env u) (exec cmd) s)
    {u : Option Shell} {cmd : ParsedCommand}
    (hsu : u = none → suElevates s cmd = true → SuKeeps env s) {rc : Int}
    (hrc : (cliCmdSu env exec cmd s).value = some rc)
    (ht : ∀ e ∈ (cliCmdSu env exec cmd s).trace, KeepsIdentity env (e.under u))
    (h : Before s u) : Afterwards (cliCmdSu env exec cmd s).state u := by
  cases u with
  | none => exact IsUser.of_same h (sameIdentity_su hexec (hsu rfl) hrc ht)
  | some c =>
    have hpriv : s.session.privilege = cliPrivRoot := by
      by_cases hroot : c.session.privilege = cliPrivRoot
      · simp only [Before, if_pos hroot] at h
        exact h.privilege.trans hroot
      · simp only [Before, if_neg hroot] at h
        exact h.1
    rcases su_cases env exec cmd s with ⟨-, hq⟩ | ⟨-, -, he⟩ | ⟨hel, -⟩
    · exact h.afterwards hq.2
    · rw [he] at hrc ht ⊢
      exact (identityKept_subCommand hexec s (under_within c s) cmd _ s rc hrc).2 ht h
    · exact absurd hpriv (suElevates_ne_root hel)

/-- The users stay in a `su`. -/
theorem db_su (hexec : ∀ u cmd s, Keeps (IdentityKept env u) (exec cmd) s)
    {cmd : ParsedCommand} {rc : Int} (hrc : (cliCmdSu env exec cmd s).value = some rc) :
    (cliCmdSu env exec cmd s).state.db = s.db := by
  have hsub := fun s' onError => identityKept_subCommand hexec s (u := none) (w := some s)
    (fun _ => rfl) cmd onError s'
  rcases su_cases env exec cmd s with ⟨-, hq⟩ | ⟨-, -, he⟩ | ⟨-, he⟩
  · exact hq.2.db
  · rw [he] at hrc ⊢
    exact (hsub s _ rc hrc).1
  · have hs := sameUser_suState s
    rw [he] at hrc
    obtain ⟨r, hr, heq⟩ := elevate_apply env exec cmd s _ hrc
    obtain ⟨hdb, -⟩ := hsub _ _ r hr
    rw [he, heq]
    dsimp only
    rw [Shell.db_restored, hdb, Shell.db_elevated, hs.db]

theorem under_ran (b : CliBuiltinCommand) (cmd : ParsedCommand) (s : Shell) (u : Option Shell) :
    (ShellEvent.ran b cmd s none).under u = .ran b cmd s u := by
  cases u <;> rfl

theorem identityKept_call (hexec : ∀ u cmd s, Keeps (IdentityKept env u) (exec cmd) s)
    (u : Option Shell) (b : CliBuiltinCommand) (cmd : ParsedCommand) (s : Shell)
    (hon : b.handler.onUser = true) {rc : Int}
    (hrc : (b.call env exec cmd s).value = some rc) :
    IdentityKept env u s (b.call env exec cmd s).trace (b.call env exec cmd s).state := by
  rw [CliBuiltinCommand.call_eq] at hrc ⊢
  unfold CliBuiltinCommand.run at hrc ⊢
  rcases CliCommandHandler.onUser_cases hon with hh | hh | hh <;> rw [hh] at hrc ⊢ <;>
    dsimp only at hrc ⊢
  · rcases login_cases cmd s with ⟨-, hq⟩ | ⟨user, s₀, huser, hs, he⟩
    · exact ⟨hq.2.db, fun _ h => h.afterwards hq.2⟩
    · rw [he]
      refine ⟨hs.db, fun ht h => identityKept_login huser hs ?_ h⟩
      have hfirst := ht _ List.mem_cons_self
      rw [under_ran] at hfirst
      exact hfirst.1 hh user huser
  · refine ⟨db_su hexec hrc, fun ht h => identityKept_su hexec ?_ hrc ?_ h⟩
    · rintro rfl
      exact (ht _ List.mem_cons_self).2.2 hh rfl
    · exact fun e he => ht e (List.mem_cons_of_mem _ he)
  · rcases logout_cases s with ⟨-, hq⟩ | ⟨hd, he⟩
    · exact ⟨hq.2.db, fun _ h => h.afterwards hq.2⟩
    · rw [he]
      refine ⟨rfl, fun ht h => identityKept_logout ?_ h⟩
      have hfirst := ht _ List.mem_cons_self
      rw [under_ran] at hfirst
      exact hfirst.2.1 hh hd

theorem identityKept_execute (env : CliEnv) (n : ℕ) (u : Option Shell) (cmd : ParsedCommand)
    (s : Shell) : Keeps (IdentityKept env u) (cliExecute env n cmd) s := by
  refine keeps_execute (userRelation_identityKept env) ?_ n u cmd s
  exact fun exec hexec u b cmd s _ hon rc hrc => identityKept_call hexec u b cmd s hon hrc

theorem composes_identityKept (env : CliEnv) : Composes (IdentityKept env none) where
  refl _ := ⟨rfl, fun _ h => h⟩
  trans h h' := by
    refine ⟨h'.1.trans h.1, fun ht hb => ?_⟩
    refine h'.2 (fun e he => ht e (List.mem_append_right _ he)) ?_
    exact h.2 (fun e he => ht e (List.mem_append_left _ he)) hb

/-! ## Runs -/

/-- No call of a handler in the line comes to a defect. -/
def LineKeeps (env : CliEnv) (s : Shell) (i : TypedLine) : Prop :=
  ∀ e ∈ (cliTyped env s i).trace, KeepsIdentity env e

/-- After the command the session is who it was, if no call in it comes to a defect. -/
def Restores (env : CliEnv) (s : Shell) (cmd : ParsedCommand) : Prop :=
  (∀ e ∈ (cliExecuteCommand env cmd s).trace, KeepsIdentity env e) →
    ∀ rc, (cliExecuteCommand env cmd s).value = some rc →
      SameIdentity s (cliExecuteCommand env cmd s).state

theorem isUser_step (env : CliEnv) (s : Shell) (i : TypedLine) (s' : Shell) (h : IsUser s)
    (hkeeps : LineKeeps env s i) (hstep : cliStep env s i = some s') : IsUser s' := by
  obtain ⟨rc, hrc, rfl⟩ := Option.map_eq_some_iff.mp hstep
  have hkept := keeps_line (userRelation_identityKept env none) (composes_identityKept env)
    (fun n cmd s => identityKept_execute env n none cmd s) i.line (s.typed i) rc hrc
  exact hkept.2 hkeeps (IsUser.of_same h (sameUser_typed s i).identity)

theorem restores_su (env : CliEnv) (s : Shell) (cmd : ParsedCommand)
    (hsu : cmd.arg 0 = Bytes.utf8 "su") : Restores env s cmd := by
  have hsafe : cliCommandPipeSafe (cmd.arg 0) = false := by
    rw [hsu]
    decide +kernel
  have hfind : cliFindBuiltin (cmd.arg 0) = some ⟨Bytes.utf8 "su", .su, cliPrivUser⟩ := by
    rw [hsu]
    decide +kernel
  intro ht rc hrc
  unfold cliExecuteCommand at ht hrc ⊢
  rcases execute_cases env cmd.weight cmd with ⟨text, rc, he⟩ | he | he | ⟨p, next, -, hp, -⟩
  · rw [he]
    exact (quiet_reply text rc).2.identity
  · rw [he]
    exact (SameUser.refl s).identity
  · rw [he] at ht hrc ⊢
    rcases single_cases env (cliExecute env cmd.weight) cmd s with hq | ⟨b, hb, hs⟩
    · exact hq.2.identity
    · obtain rfl := Option.some.inj (hb.found.symm.trans hfind)
      rw [hs, CliBuiltinCommand.call_eq] at ht hrc ⊢
      have hfirst := ht _ List.mem_cons_self
      have hsame := sameIdentity_su (identityKept_execute env cmd.weight) (hfirst.2.2 rfl rfl) hrc
        fun e he => ht e (List.mem_cons_of_mem _ he)
      exact (sameUser_counted s).identity.trans hsame
  · rw [hsafe] at hp
    cases hp

/-- As long as no line comes to a defect the session is a user of the database after every line,
and every `su` leaves it the user it was. -/
theorem session_identity (env : CliEnv) (s : Shell) (lines : List TypedLine) (h : IsUser s)
    (hkeeps : Along (cliStep env) (LineKeeps env) s lines) :
    After (cliStep env) IsUser s lines ∧
      ∀ t cmd, cmd.arg 0 = Bytes.utf8 "su" → Restores env t cmd :=
  ⟨After.of_along (isUser_step env) lines s h hkeeps, restores_su env⟩

/-- Three users without passwords. -/
def openUserDb : UserDb where
  users :=
    let flags := userFlagActive ||| userFlagNoPassword
    [userRecord strRoot cliPrivRoot flags,
     userRecord (Bytes.utf8 "administrator") cliPrivAdmin flags,
     userRecord (Bytes.utf8 "bob") cliPrivUser flags]
  ready := true
  fits := by decide

/-- The session of one of them. -/
def openShell (uid : UInt32) (name : String) (privilege : UInt8) : Shell :=
  newShell openUserDb uid (Bytes.utf8 name) privilege

/-- Root becomes the administrator, who then runs a command as root. -/
def keptLines : List TypedLine :=
  [⟨Bytes.utf8 "login administrator", []⟩, ⟨Bytes.utf8 "su echo done", []⟩]

/-- Both lines of `keptLines` keep the identity. -/
theorem session_identity_kept :
    After (cliStep bareEnv) IsUser (openShell 0 "root" cliPrivRoot) keptLines ∧
      ∀ t cmd, cmd.arg 0 = Bytes.utf8 "su" → Restores bareEnv t cmd := by
  refine session_identity _ _ _ (by decide +kernel) ⟨?_, fun s' hs' => ⟨?_, fun _ _ => trivial⟩⟩
  · unfold LineKeeps
    decide +kernel
  · have hnext : s' = (cliTyped bareEnv (openShell 0 "root" cliPrivRoot)
        ⟨Bytes.utf8 "login administrator", []⟩).state := by
      obtain ⟨rc, -, hs⟩ := Option.map_eq_some_iff.mp hs'
      exact hs.symm
    rw [hnext]
    unfold LineKeeps
    decide +kernel

/-- `login bob` of the administrator makes the session `bobinistrator`. -/
theorem not_session_identity : ¬ ∀ (env : CliEnv) (s : Shell) (lines : List TypedLine),
    IsUser s → After (cliStep env) IsUser s lines := by
  intro hall
  let s := openShell 1 "administrator" cliPrivAdmin
  let i : TypedLine := ⟨Bytes.utf8 "login bob", []⟩
  have hvalue : (cliTyped bareEnv s i).value = some cliOk := by decide +kernel
  have hstep : cliStep bareEnv s i = some (cliTyped bareEnv s i).state := by
    rw [cliStep, hvalue, Option.map_some]
  have hlost : ¬ IsUser (cliTyped bareEnv s i).state := by decide +kernel
  obtain ⟨-, hafter⟩ := hall bareEnv s [i] (by decide +kernel)
  exact hlost (hafter _ hstep)

end VernisOS
