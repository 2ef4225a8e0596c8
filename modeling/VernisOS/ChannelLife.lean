import Mathlib.Data.Fintype.EquivFin
import VernisOS.IpcChannels
import VernisOS.Lib.Run

/-!
# The life cycle of channels

A closed channel keeps its owner, so that its slot does not come back, and a second close is
counted like the first. `channelsActive` is the number of open channels, and a slot is found
while fewer than all are open, exactly in the runs whose calls avoid both (`channel_life`).
-/

open Run Slots

namespace VernisOS

/-- A call that opens or closes channels. -/
inductive ChannelCall
  | create (ownerPid peerPid : UInt32)
  | close (cid : UInt32)
  | bind (path : List UInt8) (ownerPid : UInt32)
  | usockClose (path : List UInt8)

namespace IpcChannels

/-- The state after a call. -/
def call (s : IpcChannels) : ChannelCall → IpcChannels
  | .create ownerPid peerPid => (s.ipcChannelCreate ownerPid peerPid).2
  | .close cid => s.ipcChannelClose cid
  | .bind path ownerPid => (s.ipcUsockBind path ownerPid).2
  | .usockClose path => (s.ipcUsockClose path).2

/-- The channels that were created and not closed. No slot is used twice. -/
def openChannels (s : IpcChannels) : Finset (Fin ipcMaxChannels) :=
  Finset.univ.filter fun i => (s.channels i).ownerPid ≠ 0 ∧ (s.channels i).closed = false

/-- The count is that of the open channels, and while fewer than all are open a channel can be
created. -/
structure Sound (s : IpcChannels) : Prop where
  active : s.channelsActive.toNat = s.openChannels.card
  create : ∀ ownerPid peerPid : UInt32, ownerPid ≠ 0 → s.openChannels.card < ipcMaxChannels →
    0 ≤ (s.ipcChannelCreate ownerPid peerPid).1

/-- A slot is left behind a new channel, or no channel is closed. -/
def RoomToCreate (s : IpcChannels) : Prop :=
  ∀ i, (s.channels i).ownerPid = 0 →
    (∃ j, j ≠ i ∧ (s.channels j).ownerPid = 0) ∨ ∀ j, (s.channels j).closed = false

/-- The channel is not closed and a slot is free, or no channel is open. -/
def MayClose (s : IpcChannels) (cid : UInt32) : Prop :=
  ∀ i, channelAt cid = some i → (s.channels i).ownerPid ≠ 0 →
    ((s.channels i).closed = false ∧ ∃ j, (s.channels j).ownerPid = 0) ∨
      ((s.channels i).closed = true ∧ s.openChannels = ∅)

/-- What a call has to meet. -/
def Kept (s : IpcChannels) : ChannelCall → Prop
  | .create ownerPid _ => ownerPid ≠ 0 → s.RoomToCreate
  | .close cid => s.MayClose cid
  | .bind path ownerPid =>
    path ≠ [] → ownerPid ≠ 0 → s.usockFindByPath path = none → s.RoomToCreate
  | .usockClose path => ∀ u, s.usockFindByPath path = some u → s.MayClose (s.usocks u).cid

/-- What every call keeps : a free slot is not closed, and the sockets have channels of their
own. -/
structure Base (s : IpcChannels) : Prop where
  free : ∀ i, (s.channels i).ownerPid = 0 → (s.channels i).closed = false
  bound : ∀ u, (s.usocks u).used = true → ∃ i, channelAt (s.usocks u).cid = some i ∧
    (s.channels i).ownerPid ≠ 0
  apart : ∀ u v, (s.usocks u).used = true → (s.usocks v).used = true →
    (s.usocks u).cid = (s.usocks v).cid → u = v

variable {s : IpcChannels} {i : Fin ipcMaxChannels} {cid ownerPid peerPid : UInt32}

theorem mem_openChannels : i ∈ s.openChannels ↔
    (s.channels i).ownerPid ≠ 0 ∧ (s.channels i).closed = false := by
  simp [openChannels]

/-! ## What a call does -/

/-- `ipc_channel_create` : nothing, or a new channel in a free slot. -/
theorem create_cases (s : IpcChannels) (ownerPid peerPid : UInt32) :
    ((ownerPid = 0 ∨ ∀ i, (s.channels i).ownerPid ≠ 0) ∧
      (s.ipcChannelCreate ownerPid peerPid).1 < 0 ∧
      (s.ipcChannelCreate ownerPid peerPid).2 = s) ∨
    ∃ i, ownerPid ≠ 0 ∧ (s.channels i).ownerPid = 0 ∧
      s.ipcChannelCreate ownerPid peerPid = ((i.val : Int),
        { s.setChannel i { IpcChannel.zero with ownerPid := ownerPid, peerPid := peerPid } with
          channelsActive := s.channelsActive + 1 }) := by
  unfold ipcChannelCreate
  by_cases howner : ownerPid = 0
  · rw [if_pos howner]
    exact Or.inl ⟨Or.inl howner, (by decide : ipcErrInval < 0), rfl⟩
  · rw [if_neg howner]
    cases hfirst : first fun i => (s.channels i).ownerPid == 0 with
    | none =>
      refine Or.inl ⟨Or.inr fun i => ?_, (by decide : ipcErrNoslot < 0), rfl⟩
      simpa using first_none.mp hfirst i
    | some i => exact Or.inr ⟨i, howner, by simpa using first_some hfirst, rfl⟩

/-- `ipc_channel_close` : nothing, or a channel that is marked and counted. -/
theorem close_cases (s : IpcChannels) (cid : UInt32) :
    (s.ipcChannelClose cid = s ∧
      ∀ i, channelAt cid = some i → (s.channels i).ownerPid = 0) ∨
    ∃ i, channelAt cid = some i ∧ (s.channels i).ownerPid ≠ 0 ∧
      s.ipcChannelClose cid = { s.setChannel i { s.channels i with closed := true } with
        channelsActive := if s.channelsActive = 0 then 0 else s.channelsActive - 1 } := by
  unfold ipcChannelClose
  cases hat : channelAt cid with
  | none => exact Or.inl ⟨rfl, fun i hi => by cases hi⟩
  | some i =>
    dsimp only
    by_cases howner : (s.channels i).ownerPid = 0
    · rw [if_pos howner]
      refine Or.inl ⟨rfl, ?_⟩
      rintro j ⟨⟩
      exact howner
    · rw [if_neg howner]
      refine Or.inr ⟨i, rfl, howner, ?_⟩
      change (if s.channelsActive = 0 then _ else _) = _
      split
      · next hzero =>
        rw [← hzero]
        rfl
      · rfl

/-! ## What every call keeps -/

theorem base_ipcInit : ipcInit.Base :=
  ⟨fun _ _ => rfl, fun _ hu => (by cases hu), fun _ _ hu => (by cases hu)⟩

theorem Base.create (h : s.Base) (ownerPid peerPid : UInt32) :
    (s.ipcChannelCreate ownerPid peerPid).2.Base := by
  rcases create_cases s ownerPid peerPid with ⟨-, -, hsame⟩ | ⟨i, howner, -, hnew⟩
  · rw [hsame]
    exact h
  · rw [hnew]
    refine ⟨fun j hj => ?_, fun u hu => ?_, h.apart⟩
    · simp only [setChannel] at hj ⊢
      by_cases hji : j = i
      · rw [hji, Function.update_self]
        rfl
      · rw [Function.update_of_ne hji] at hj ⊢
        exact h.free j hj
    · obtain ⟨j, hj, hjowner⟩ := h.bound u hu
      refine ⟨j, hj, ?_⟩
      simp only [setChannel]
      by_cases hji : j = i
      · rw [hji, Function.update_self]
        exact howner
      · rw [Function.update_of_ne hji]
        exact hjowner

theorem Base.close (h : s.Base) (cid : UInt32) : (s.ipcChannelClose cid).Base := by
  rcases close_cases s cid with ⟨hsame, -⟩ | ⟨i, -, howner, hclose⟩
  · rw [hsame]
    exact h
  · have hkeep : ∀ j, (Function.update s.channels i
        { s.channels i with closed := true } j).ownerPid = (s.channels j).ownerPid := by
      intro j
      by_cases hji : j = i
      · rw [hji, Function.update_self]
      · rw [Function.update_of_ne hji]
    rw [hclose]
    refine ⟨fun j hj => ?_, fun u hu => ?_, h.apart⟩
    · simp only [setChannel] at hj ⊢
      rw [hkeep] at hj
      have hji : j ≠ i := by
        rintro rfl
        exact howner hj
      rw [Function.update_of_ne hji]
      exact h.free j hj
    · obtain ⟨j, hj, hjowner⟩ := h.bound u hu
      refine ⟨j, hj, ?_⟩
      simp only [setChannel]
      rw [hkeep]
      exact hjowner

/-- While a channel is free, so is a socket. -/
theorem Base.socket (h : s.Base) (hfree : ∃ i, (s.channels i).ownerPid = 0) :
    ∃ u, (s.usocks u).used = false := by
  by_contra hall
  have hused : ∀ u, (s.usocks u).used = true := by
    intro u
    by_contra hu
    exact hall ⟨u, by simpa using hu⟩
  choose f hf howner using fun u => h.bound u (hused u)
  have hinj : Function.Injective f := by
    intro u v huv
    refine h.apart u v (hused u) (hused v) ?_
    rw [← UInt32.toNat_inj, channelAt_some (hf u), channelAt_some (hf v), huv]
  obtain ⟨i, hi⟩ := hfree
  obtain ⟨u, rfl⟩ := Finite.injective_iff_surjective.mp hinj i
  exact howner u hi

/-- `ipc_usock_bind` : nothing, or a new channel and a socket that names it. -/
theorem Base.bind_cases (h : s.Base) (path : List UInt8) (ownerPid : UInt32) :
    ((path = [] ∨ ownerPid = 0 ∨ s.usockFindByPath path ≠ none ∨
        ∀ i, (s.channels i).ownerPid ≠ 0) ∧ (s.ipcUsockBind path ownerPid).2 = s) ∨
    ∃ u i, path ≠ [] ∧ ownerPid ≠ 0 ∧ s.usockFindByPath path = none ∧
      (s.channels i).ownerPid = 0 ∧ (s.usocks u).used = false ∧
      s.ipcChannelCreate ownerPid 0 = ((i.val : Int), (s.ipcChannelCreate ownerPid 0).2) ∧
      (s.ipcUsockBind path ownerPid).2 = (s.ipcChannelCreate ownerPid 0).2.setUsock u
        ⟨true, UInt32.ofNat i.val, ownerPid, path.take (ipcUsockPathMax - 1)⟩ := by
  unfold ipcUsockBind
  by_cases hargs : path = [] ∨ ownerPid = 0
  · rw [if_pos hargs]
    refine Or.inl ⟨?_, rfl⟩
    rcases hargs with hpath | howner
    · exact Or.inl hpath
    · exact Or.inr (Or.inl howner)
  · rw [if_neg hargs]
    rw [not_or] at hargs
    by_cases hfind : (s.usockFindByPath path).isSome
    · rw [if_pos hfind]
      exact Or.inl ⟨Or.inr (Or.inr (Or.inl (Option.isSome_iff_ne_none.mp hfind))), rfl⟩
    · rw [if_neg hfind]
      have hnone : s.usockFindByPath path = none := by simpa using hfind
      rcases create_cases s ownerPid 0 with ⟨hwhy, hneg, hsame⟩ | ⟨i, howner, hfree, hnew⟩
      · dsimp only
        rw [if_pos hneg]
        exact Or.inl ⟨Or.inr (Or.inr (Or.inr (hwhy.resolve_left hargs.2))), hsame⟩
      · obtain ⟨u, hu⟩ := h.socket ⟨i, hfree⟩
        have hsocket : (first fun u => !((s.ipcChannelCreate ownerPid 0).2.usocks u).used).isSome =
            true := by
          rw [first_isSome, hnew]
          exact ⟨u, by simpa [setChannel] using hu⟩
        obtain ⟨v, hv⟩ := Option.isSome_iff_exists.mp hsocket
        have hvfree : (s.usocks v).used = false := by
          have := first_some hv
          rw [hnew] at this
          simpa [setChannel] using this
        refine Or.inr ⟨v, i, hargs.1, howner, hnone, hfree, hvfree, by rw [hnew], ?_⟩
        dsimp only
        rw [if_neg, hv]
        · rw [hnew]
          rfl
        · rw [hnew]
          exact not_lt.mpr (Int.natCast_nonneg _)

theorem Base.bind (h : s.Base) (path : List UInt8) (ownerPid : UInt32) :
    (s.ipcUsockBind path ownerPid).2.Base := by
  rcases h.bind_cases path ownerPid with ⟨-, hsame⟩ | ⟨u, i, -, howner, -, hfree, -, hcreate, hbind⟩
  · rw [hsame]
    exact h
  · have hnext := h.create ownerPid 0
    have hold : ∀ v, (s.usocks v).used = true → (s.usocks v).cid ≠ UInt32.ofNat i.val := by
      intro v hv he
      obtain ⟨j, hj, hjowner⟩ := h.bound v hv
      rw [he, channelAt_ofNat] at hj
      cases hj
      exact hjowner hfree
    have hsocks : (s.ipcChannelCreate ownerPid 0).2.usocks = s.usocks := by
      rcases create_cases s ownerPid 0 with ⟨-, -, hsame⟩ | ⟨j, -, -, hnew⟩
      · rw [hsame]
      · rw [hnew]
        rfl
    have hchannel : ((s.ipcChannelCreate ownerPid 0).2.channels i).ownerPid ≠ 0 := by
      rcases create_cases s ownerPid 0 with ⟨-, hneg, -⟩ | ⟨j, -, -, hnew⟩
      · rw [hcreate] at hneg
        exact absurd hneg (not_lt.mpr (Int.natCast_nonneg _))
      · rw [hnew] at hcreate
        have hji : j = i := by
          have hval := congrArg Prod.fst hcreate
          dsimp only at hval
          exact Fin.ext (by exact_mod_cast hval)
        rw [hnew, hji]
        simp only [setChannel, Function.update_self]
        exact howner
    rw [hbind]
    refine ⟨hnext.free, fun v hv => ?_, fun v w hv hw hcid => ?_⟩
    · simp only [setUsock] at hv ⊢
      by_cases hvu : v = u
      · rw [hvu, Function.update_self]
        exact ⟨i, channelAt_ofNat i, hchannel⟩
      · rw [Function.update_of_ne hvu] at hv ⊢
        exact hnext.bound v hv
    · simp only [setUsock, hsocks] at hv hw hcid
      by_cases hvu : v = u <;> by_cases hwu : w = u
      · rw [hvu, hwu]
      · rw [hvu, Function.update_self, Function.update_of_ne hwu] at hcid
        rw [Function.update_of_ne hwu] at hw
        exact absurd hcid.symm (hold w hw)
      · rw [hwu, Function.update_self, Function.update_of_ne hvu] at hcid
        rw [Function.update_of_ne hvu] at hv
        exact absurd hcid (hold v hv)
      · rw [Function.update_of_ne hvu] at hv hcid
        rw [Function.update_of_ne hwu] at hw hcid
        exact h.apart v w hv hw hcid

theorem Base.usockClose (h : s.Base) (path : List UInt8) : (s.ipcUsockClose path).2.Base := by
  unfold ipcUsockClose
  cases s.usockFindByPath path with
  | none => exact h
  | some u =>
    have hnext := h.close (s.usocks u).cid
    have hused : ∀ {v}, (((s.ipcChannelClose (s.usocks u).cid).setUsock u .zero).usocks v).used =
        true → v ≠ u := by
      rintro v hv rfl
      simp only [setUsock, Function.update_self] at hv
      cases hv
    refine ⟨hnext.free, fun v hv => ?_, fun v w hv hw hcid => ?_⟩
    · have hvu := hused hv
      simp only [setUsock, Function.update_of_ne hvu] at hv ⊢
      exact hnext.bound v hv
    · have hvu := hused hv
      have hwu := hused hw
      simp only [setUsock, Function.update_of_ne hvu, Function.update_of_ne hwu] at hv hw hcid
      exact hnext.apart v w hv hw hcid

theorem Base.call (h : s.Base) (c : ChannelCall) : (s.call c).Base := by
  cases c with
  | create ownerPid peerPid => exact h.create ownerPid peerPid
  | close cid => exact h.close cid
  | bind path ownerPid => exact h.bind path ownerPid
  | usockClose path => exact h.usockClose path

/-! ## When the count stays right -/

theorem card_eq_iff : s.openChannels.card = ipcMaxChannels ↔
    ∀ i, (s.channels i).ownerPid ≠ 0 ∧ (s.channels i).closed = false := by
  constructor
  · intro h i
    have huniv := Finset.eq_univ_of_card _ (h.trans (Fintype.card_fin _).symm)
    exact mem_openChannels.mp (huniv ▸ Finset.mem_univ i)
  · intro h
    have huniv : s.openChannels = Finset.univ :=
      Finset.eq_univ_of_forall fun i => mem_openChannels.mpr (h i)
    rw [huniv, Finset.card_univ, Fintype.card_fin]

/-- A channel can be created while fewer than all are open if a slot is free or no channel is
closed. -/
theorem sound_iff : s.Sound ↔ s.channelsActive.toNat = s.openChannels.card ∧
    ((∃ i, (s.channels i).ownerPid = 0) ∨ ∀ i, (s.channels i).closed = false) := by
  constructor
  · intro h
    refine ⟨h.active, ?_⟩
    by_contra hnone
    rw [not_or] at hnone
    have hless : s.openChannels.card < ipcMaxChannels := by
      refine lt_of_le_of_ne (card_finset_fin_le _) fun hall => hnone.2 fun i => ?_
      exact (card_eq_iff.mp hall i).2
    have hcreate := h.create 1 0 (by decide) hless
    rcases create_cases s 1 0 with ⟨-, hneg, -⟩ | ⟨i, -, hfree, -⟩
    · exact absurd hneg (not_lt.mpr hcreate)
    · exact hnone.1 ⟨i, hfree⟩
  · rintro ⟨hactive, hroom⟩
    refine ⟨hactive, fun ownerPid peerPid howner hless => ?_⟩
    rcases create_cases s ownerPid peerPid with ⟨hwhy, -, -⟩ | ⟨i, -, -, hnew⟩
    · have hused := hwhy.resolve_left howner
      rcases hroom with ⟨i, hi⟩ | hopen
      · exact absurd hi (hused i)
      · exact absurd (card_eq_iff.mpr fun i => ⟨hused i, hopen i⟩) hless.ne
    · rw [hnew]
      exact Int.natCast_nonneg _

theorem card_le (s : IpcChannels) : s.openChannels.card ≤ 8 :=
  card_finset_fin_le _

/-- A new channel keeps the count, and leaves a slot if there was room for it. -/
theorem Sound.create_iff (hs : s.Sound) (h : s.Base) (ownerPid peerPid : UInt32) :
    (s.ipcChannelCreate ownerPid peerPid).2.Sound ↔ (ownerPid ≠ 0 → s.RoomToCreate) := by
  rcases create_cases s ownerPid peerPid with ⟨hwhy, -, hsame⟩ | ⟨i, howner, hfree, hnew⟩
  · rw [hsame]
    refine ⟨fun _ howner i hi => ?_, fun _ => hs⟩
    exact absurd hi (hwhy.resolve_left howner i)
  · rw [hnew]
    dsimp only
    generalize hch : { IpcChannel.zero with ownerPid := ownerPid, peerPid := peerPid } = ch
    have hchowner : ch.ownerPid ≠ 0 := by
      rw [← hch]
      exact howner
    have hchopen : ch.closed = false := by
      rw [← hch]
      rfl
    have hself : Function.update s.channels i ch i = ch := Function.update_self _ _ _
    have hother : ∀ j, j ≠ i → Function.update s.channels i ch j = s.channels j := fun j hj =>
      Function.update_of_ne hj _ _
    have hopen : openChannels { s.setChannel i ch with
        channelsActive := s.channelsActive + 1 } = insert i s.openChannels := by
      ext j
      rw [Finset.mem_insert, mem_openChannels, mem_openChannels]
      simp only [setChannel]
      by_cases hji : j = i
      · rw [hji, hself]
        simp [hchowner, hchopen]
      · rw [hother j hji]
        simp [hji]
    have hnot : i ∉ s.openChannels := fun hi => (mem_openChannels.mp hi).1 hfree
    have hcard := s.card_le
    have hactive : (s.channelsActive + 1).toNat = (insert i s.openChannels).card := by
      have hone : (1 : UInt32).toNat = 1 := rfl
      rw [Finset.card_insert_of_notMem hnot, UInt32.toNat_add, hone, hs.active]
      omega
    have hroom : ((∃ j, (Function.update s.channels i ch j).ownerPid = 0) ↔
        ∃ j, j ≠ i ∧ (s.channels j).ownerPid = 0) ∧
        ((∀ j, (Function.update s.channels i ch j).closed = false) ↔
          ∀ j, (s.channels j).closed = false) := by
      constructor
      · refine exists_congr fun j => ?_
        by_cases hji : j = i
        · rw [hji, hself]
          simp [hchowner]
        · rw [hother j hji]
          simp [hji]
      · refine forall_congr' fun j => ?_
        by_cases hji : j = i
        · rw [hji, hself, hchopen, h.free i hfree]
        · rw [hother j hji]
    rw [sound_iff, hopen]
    simp only [setChannel, hactive, true_and]
    rw [hroom.1, hroom.2]
    constructor
    · rintro hor - k hk
      rcases hor with ⟨j, hji, hj⟩ | hclosed
      · by_cases hki : k = i
        · exact Or.inl ⟨j, by rwa [hki], hj⟩
        · exact Or.inl ⟨i, Ne.symm hki, hfree⟩
      · exact Or.inr hclosed
    · intro hmay
      exact hmay howner i hfree

/-- A close keeps the count if the channel was open, and leaves a slot if one was free. -/
theorem Sound.close_iff (hs : s.Sound) (h : s.Base) (cid : UInt32) :
    (s.ipcChannelClose cid).Sound ↔ s.MayClose cid := by
  rcases close_cases s cid with ⟨hsame, hwhy⟩ | ⟨i, hat, howner, hclose⟩
  · rw [hsame]
    refine ⟨fun _ i hi hne => absurd (hwhy i hi) hne, fun _ => hs⟩
  · have hmay : s.MayClose cid ↔ ((s.channels i).closed = false ∧
        ∃ j, (s.channels j).ownerPid = 0) ∨
          ((s.channels i).closed = true ∧ s.openChannels = ∅) := by
      refine ⟨fun hm => hm i hat howner, fun hm j hj _ => ?_⟩
      rw [hat] at hj
      cases hj
      exact hm
    have hself : Function.update s.channels i { s.channels i with closed := true } i =
        { s.channels i with closed := true } := Function.update_self _ _ _
    have hother : ∀ j, j ≠ i →
        Function.update s.channels i { s.channels i with closed := true } j = s.channels j :=
      fun j hj => Function.update_of_ne hj _ _
    have hopen : ∀ n, openChannels { s.setChannel i { s.channels i with closed := true } with
        channelsActive := n } = s.openChannels.erase i := by
      intro n
      ext j
      rw [Finset.mem_erase, mem_openChannels, mem_openChannels]
      simp only [setChannel]
      by_cases hji : j = i
      · rw [hji, hself]
        simp
      · rw [hother j hji]
        simp [hji]
    have hfree : (∃ j, (Function.update s.channels i { s.channels i with closed := true } j).ownerPid
        = 0) ↔ ∃ j, (s.channels j).ownerPid = 0 := by
      refine exists_congr fun j => ?_
      by_cases hji : j = i
      · rw [hji, hself]
      · rw [hother j hji]
    have hclosed : ¬ ∀ j, (Function.update s.channels i
        { s.channels i with closed := true } j).closed = false := by
      intro hall
      have := hall i
      rw [hself] at this
      cases this
    have hzero : s.channelsActive = 0 ↔ s.openChannels = ∅ := by
      rw [← Finset.card_eq_zero, ← hs.active, ← UInt32.toNat_inj]
      rfl
    rw [hclose, sound_iff, hopen, hmay]
    simp only [setChannel, hfree, hclosed, or_false]
    cases hi : (s.channels i).closed with
    | false =>
      have hin : i ∈ s.openChannels := mem_openChannels.mpr ⟨howner, hi⟩
      have hne : s.channelsActive ≠ 0 := fun he =>
        absurd hin (by rw [hzero.mp he]; exact Finset.notMem_empty i)
      have hpos : 1 ≤ s.channelsActive.toNat := by
        rw [hs.active]
        exact Finset.card_pos.mpr ⟨i, hin⟩
      have hcount : (s.channelsActive - 1).toNat = (s.openChannels.erase i).card := by
        have hone : (1 : UInt32).toNat = 1 := rfl
        rw [Finset.card_erase_of_mem hin, ← hs.active, UInt32.toNat_sub_of_le, hone]
        rw [UInt32.le_iff_toNat_le, hone]
        exact hpos
      rw [if_neg hne, hcount]
      simp
    | true =>
      have hnot : i ∉ s.openChannels := by
        rw [mem_openChannels, hi]
        simp
      rw [Finset.erase_eq_of_notMem hnot, ← hs.active, ← hzero]
      have hroom : ∃ j, (s.channels j).ownerPid = 0 := by
        rcases (sound_iff.mp hs).2 with hex | hall
        · exact hex
        · rw [hall i] at hi
          cases hi
      by_cases hne : s.channelsActive = 0
      · rw [if_pos hne, hne]
        simp [hroom]
      · rw [if_neg hne]
        have hless : (s.channelsActive - 1).toNat ≠ s.channelsActive.toNat := by
          have hone : (1 : UInt32).toNat = 1 := rfl
          have hpos : 1 ≤ s.channelsActive.toNat := by
            rw [Nat.one_le_iff_ne_zero]
            exact fun he => hne (UInt32.toNat_inj.mp he)
          rw [UInt32.toNat_sub_of_le _ _ (UInt32.le_iff_toNat_le.mpr (by rwa [hone])), hone]
          omega
        simp [hless, hne]

/-! ## The socket layer -/

theorem sound_setUsock {u : Fin ipcMaxUsockets} {sock : IpcUnixSocket} :
    (s.setUsock u sock).Sound ↔ s.Sound := by
  rw [sound_iff, sound_iff]
  rfl

theorem Sound.bind_iff (hs : s.Sound) (h : s.Base) (path : List UInt8) (ownerPid : UInt32) :
    (s.ipcUsockBind path ownerPid).2.Sound ↔
      (path ≠ [] → ownerPid ≠ 0 → s.usockFindByPath path = none → s.RoomToCreate) := by
  rcases h.bind_cases path ownerPid with
    ⟨hwhy, hsame⟩ | ⟨u, i, hpath, howner, hfind, -, -, -, hbind⟩
  · rw [hsame]
    refine ⟨fun _ hpath howner hfind i hi => ?_, fun _ => hs⟩
    rcases hwhy with hnil | hzero | hfound | hused
    · exact absurd hnil hpath
    · exact absurd hzero howner
    · exact absurd hfind hfound
    · exact absurd hi (hused i)
  · rw [hbind, sound_setUsock, hs.create_iff h]
    simp [hpath, howner, hfind]

theorem Sound.usockClose_iff (hs : s.Sound) (h : s.Base) (path : List UInt8) :
    (s.ipcUsockClose path).2.Sound ↔
      ∀ u, s.usockFindByPath path = some u → s.MayClose (s.usocks u).cid := by
  unfold ipcUsockClose
  cases s.usockFindByPath path with
  | none => simp [hs]
  | some u =>
    dsimp only
    rw [sound_setUsock, hs.close_iff h]
    simp

/-- One call : the state stays sound exactly if the call meets its condition. -/
theorem Sound.call_iff (hs : s.Sound) (h : s.Base) (c : ChannelCall) :
    (s.call c).Sound ↔ s.Kept c := by
  cases c with
  | create ownerPid peerPid => exact hs.create_iff h ownerPid peerPid
  | close cid => exact hs.close_iff h cid
  | bind path ownerPid => exact hs.bind_iff h path ownerPid
  | usockClose path => exact hs.usockClose_iff h path

end IpcChannels

/-- In every state of a run the count is that of the open channels, and a channel can be created
while fewer than all are open, exactly if every call meets its condition. -/
theorem channel_life (calls : List ChannelCall) :
    After (fun s c => some (IpcChannels.call s c)) IpcChannels.Sound IpcChannels.ipcInit calls ↔
      Along (fun s c => some (IpcChannels.call s c)) IpcChannels.Kept IpcChannels.ipcInit calls := by
  have hstep : ∀ (s : IpcChannels) c, s.Base ∧ s.Sound →
      ((s.call c).Base ∧ (s.call c).Sound ↔ s.Kept c) := by
    rintro s c ⟨hbase, hsound⟩
    rw [hsound.call_iff hbase]
    exact and_iff_right (hbase.call c)
  have hinit : IpcChannels.ipcInit.Base ∧ IpcChannels.ipcInit.Sound := by
    refine ⟨IpcChannels.base_ipcInit, IpcChannels.sound_iff.mpr ⟨?_, Or.inr fun _ => rfl⟩⟩
    decide
  have hbase := After.of_inv (f := IpcChannels.call) (I := IpcChannels.Base)
    (fun _ c h => h.call c) calls _ IpcChannels.base_ipcInit
  rw [← after_iff_along hstep calls IpcChannels.ipcInit hinit]
  exact ⟨fun h => hbase.and h, After.mono (fun _ => And.right) calls IpcChannels.ipcInit⟩

/-- Two channels are opened and the first is closed twice : the count says that none is open. -/
theorem not_channel_life :
    ¬ ∀ calls, After (fun s c => some (IpcChannels.call s c)) IpcChannels.Sound
      IpcChannels.ipcInit calls := by
  intro h
  have hrun := h [.create 1 2, .create 1 2, .close 0, .close 0]
  have hlast := ((((hrun.2 _ rfl).2 _ rfl).2 _ rfl).2 _ rfl)
  exact absurd hlast.active (by decide +kernel)

end VernisOS
