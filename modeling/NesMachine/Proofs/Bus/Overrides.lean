import Mathlib.Data.List.Nodup
import NesMachine.Proofs.Bus.Routing

/-!
# What earlier devices lose

A device that is mapped takes addresses from earlier devices, and each of these is reported with the
lowest and the highest address that it loses (`IsExtent`), however scattered the addresses are.
Recording one address more keeps the record exact (`Records.skip`, `Records.extend`), so the record
of a range is (`MemoryBus.records_lostSpans`). Main statement: `MemoryBus.mapping_warns_exactly`. After
every history, mapping a device logs one warning for each earlier device that loses an address, in the
order in which these were mapped, and no other warning.
-/

set_option autoImplicit false

namespace NesMachine

/-! ## Extents -/

/-- A span goes from the lowest to the highest of the claimed addresses that its owner holds. -/
structure IsExtent (owner? : UInt16 → Option Nat) (claimed : UInt16 → Prop) (span : LostSpan) :
    Prop where
  low_claimed : claimed span.low
  low_owner : owner? span.low = some span.owner
  high_claimed : claimed span.high
  high_owner : owner? span.high = some span.owner
  bounds : ∀ addr, claimed addr → owner? addr = some span.owner → span.low ≤ addr ∧ addr ≤ span.high

section Extents

variable {owner? : UInt16 → Option Nat} {claimed other : UInt16 → Prop} {span : LostSpan}

/-- An owner has one extent. -/
theorem IsExtent.unique {second : LostSpan} (h : IsExtent owner? claimed span)
    (hsecond : IsExtent owner? claimed second) (howner : span.owner = second.owner) :
    span = second := by
  have hlow : span.low = second.low := by
    apply UInt16.le_antisymm
    · exact (h.bounds _ hsecond.low_claimed (howner ▸ hsecond.low_owner)).1
    · exact (hsecond.bounds _ h.low_claimed (howner ▸ h.low_owner)).1
  have hhigh : span.high = second.high := by
    apply UInt16.le_antisymm
    · exact (hsecond.bounds _ h.high_claimed (howner ▸ h.high_owner)).2
    · exact (h.bounds _ hsecond.high_claimed (howner ▸ hsecond.high_owner)).2
  cases span
  cases second
  exact (LostSpan.mk.injEq ..).mpr ⟨howner, hlow, hhigh⟩

/-- An extent depends on the claimed addresses that the owner holds, and on no others. -/
theorem IsExtent.of_iff (h : IsExtent owner? claimed span)
    (hiff : ∀ addr, owner? addr = some span.owner → (claimed addr ↔ other addr)) :
    IsExtent owner? other span where
  low_claimed := (hiff _ h.low_owner).1 h.low_claimed
  low_owner := h.low_owner
  high_claimed := (hiff _ h.high_owner).1 h.high_claimed
  high_owner := h.high_owner
  bounds := fun addr hclaimed howner => h.bounds addr ((hiff addr howner).2 hclaimed) howner

section Concat

variable {addrs : List UInt16} {addr : UInt16}

/-- An extent of another owner stays one when an address is added. -/
theorem IsExtent.concat (h : IsExtent owner? (· ∈ addrs) span)
    (hother : owner? addr ≠ some span.owner) : IsExtent owner? (· ∈ addrs ++ [addr]) span := by
  refine h.of_iff fun seen hseen => ?_
  have hne : seen ≠ addr := by
    rintro rfl
    exact hother hseen
  simp [hne]

/-- An extent goes on to an address of its owner that is added above the others. -/
theorem IsExtent.stretch {owner : Nat} {low high : UInt16}
    (h : IsExtent owner? (· ∈ addrs) ⟨owner, low, high⟩) (howner : owner? addr = some owner)
    (habove : ∀ earlier ∈ addrs, earlier ≤ addr) :
    IsExtent owner? (· ∈ addrs ++ [addr]) ⟨owner, low, addr⟩ where
  low_claimed := List.mem_append_left _ h.low_claimed
  low_owner := h.low_owner
  high_claimed := List.mem_append_right _ (List.mem_singleton_self addr)
  high_owner := howner
  bounds := by
    intro seen hseen hholds
    rcases List.mem_append.1 hseen with hold | hnew
    · exact ⟨(h.bounds seen hold hholds).1, habove seen hold⟩
    · obtain rfl := List.mem_singleton.1 hnew
      exact ⟨habove low h.low_claimed, UInt16.le_refl seen⟩

/-- The first address of an owner is an extent. -/
theorem IsExtent.single {owner : Nat} (howner : owner? addr = some owner)
    (hfirst : ∀ earlier ∈ addrs, owner? earlier ≠ some owner) :
    IsExtent owner? (· ∈ addrs ++ [addr]) ⟨owner, addr, addr⟩ where
  low_claimed := List.mem_append_right _ (List.mem_singleton_self addr)
  low_owner := howner
  high_claimed := List.mem_append_right _ (List.mem_singleton_self addr)
  high_owner := howner
  bounds := by
    intro seen hseen hholds
    rcases List.mem_append.1 hseen with hold | hnew
    · exact absurd hholds (hfirst seen hold)
    · rw [List.mem_singleton.1 hnew]
      exact ⟨UInt16.le_refl addr, UInt16.le_refl addr⟩

end Concat

end Extents

/-! ## One address more -/

/-- Some spans are in increasing order of their owners. -/
def ByOwner (spans : List LostSpan) : Prop :=
  spans.Pairwise fun span later => span.owner < later.owner

/-- In such an order each owner has one span. -/
theorem ByOwner.eq_of_owner_eq {spans : List LostSpan} (h : ByOwner spans) {span second : LostSpan}
    (hspan : span ∈ spans) (hsecond : second ∈ spans) (howner : span.owner = second.owner) :
    span = second := by
  have hdistinct : (spans.map LostSpan.owner).Nodup :=
    List.pairwise_map.2 (h.imp fun hlt => Nat.ne_of_lt hlt)
  exact List.inj_on_of_nodup_map hdistinct hspan hsecond howner

section Extend

variable {owner : Nat} {addr : UInt16} {spans : List LostSpan} {span : LostSpan}

/-- Other owners keep their spans. -/
theorem mem_extend_iff_of_ne (hne : span.owner ≠ owner) :
    span ∈ LostSpan.extend owner addr spans ↔ span ∈ spans := by
  have hnew : ∀ low high, span ≠ ⟨owner, low, high⟩ := by
    rintro low high rfl
    exact hne rfl
  induction spans with
  | nil => simp [LostSpan.extend, hnew]
  | cons first rest ih =>
    rw [LostSpan.extend]
    split
    · simp [hnew]
    · split
      next heq =>
        -- The span that grows is one of the owner, before and after.
        obtain ⟨owner', low, high⟩ := first
        obtain rfl : owner = owner' := heq
        simp [hnew]
      · rw [List.mem_cons, List.mem_cons]
        exact or_congr_right ih

/-- The order is kept. -/
theorem ByOwner.extend (h : ByOwner spans) (owner : Nat) (addr : UInt16) :
    ByOwner (LostSpan.extend owner addr spans) := by
  induction spans with
  | nil => exact List.pairwise_singleton _ _
  | cons first rest ih =>
    obtain ⟨hfirst, hrest⟩ := List.pairwise_cons.1 h
    rw [LostSpan.extend]
    split
    next hlt =>
      refine List.pairwise_cons.2 ⟨fun later hlater => ?_, h⟩
      rcases List.mem_cons.1 hlater with rfl | hlater
      · exact hlt
      · exact Nat.lt_trans hlt (hfirst later hlater)
    next hnot =>
      split
      · exact List.pairwise_cons.2 ⟨hfirst, hrest⟩
      next hne =>
        refine List.pairwise_cons.2 ⟨fun later hlater => ?_, ih hrest⟩
        by_cases howner : later.owner = owner
        · rw [howner]
          omega
        · exact hfirst later ((mem_extend_iff_of_ne howner).1 hlater)

/-- The owner gets a span up to the address, from where its span began or from the address. -/
theorem ByOwner.exists_mem_extend (h : ByOwner spans) (owner : Nat) (addr : UInt16) :
    ∃ low, ⟨owner, low, addr⟩ ∈ LostSpan.extend owner addr spans ∧
      ((∃ high, ⟨owner, low, high⟩ ∈ spans) ∨
        low = addr ∧ ∀ span ∈ spans, span.owner ≠ owner) := by
  induction spans with
  | nil => exact ⟨addr, List.mem_singleton_self _, .inr ⟨rfl, nofun⟩⟩
  | cons first rest ih =>
    obtain ⟨hfirst, hrest⟩ := List.pairwise_cons.1 h
    rw [LostSpan.extend]
    split
    next hlt =>
      -- All owners of the list come behind the new one.
      refine ⟨addr, List.mem_cons_self, .inr ⟨rfl, fun span hspan => ?_⟩⟩
      rcases List.mem_cons.1 hspan with rfl | hspan
      · exact (Nat.ne_of_lt hlt).symm
      · exact (Nat.ne_of_lt (Nat.lt_trans hlt (hfirst span hspan))).symm
    next =>
      split
      next heq =>
        obtain ⟨owner', low, high⟩ := first
        obtain rfl : owner = owner' := heq
        exact ⟨low, List.mem_cons_self, .inl ⟨high, List.mem_cons_self⟩⟩
      next hne =>
        obtain ⟨low, hmem, hbefore⟩ := ih hrest
        refine ⟨low, List.mem_cons_of_mem _ hmem, ?_⟩
        rcases hbefore with ⟨high, hhigh⟩ | ⟨hlow, hnone⟩
        · exact .inl ⟨high, List.mem_cons_of_mem _ hhigh⟩
        · refine .inr ⟨hlow, fun span hspan => ?_⟩
          rcases List.mem_cons.1 hspan with rfl | hspan
          · exact fun heq => hne heq.symm
          · exact hnone span hspan

end Extend

/-! ## Records -/

/-- Some spans are the extents of the owners of some addresses, in increasing order of the owners. -/
structure Records (owner? : UInt16 → Option Nat) (addrs : List UInt16) (spans : List LostSpan) :
    Prop where
  byOwner : ByOwner spans
  sound : ∀ span ∈ spans, IsExtent owner? (· ∈ addrs) span
  complete : ∀ addr ∈ addrs, ∀ owner, owner? addr = some owner → ∃ span ∈ spans, span.owner = owner

namespace Records

variable {owner? : UInt16 → Option Nat} {addrs : List UInt16} {spans : List LostSpan}
  {addr : UInt16}

theorem mem_iff (h : Records owner? addrs spans) {span : LostSpan} :
    span ∈ spans ↔ IsExtent owner? (· ∈ addrs) span := by
  constructor
  · exact h.sound span
  · intro hspan
    obtain ⟨found, hfound, howner⟩ := h.complete _ hspan.low_claimed _ hspan.low_owner
    rw [← (h.sound found hfound).unique hspan howner]
    exact hfound

theorem nil : Records owner? [] [] :=
  ⟨List.Pairwise.nil, nofun, nofun⟩

/-- An address without an owner leaves a record as it is. -/
theorem skip (h : Records owner? addrs spans) (hnone : owner? addr = none) :
    Records owner? (addrs ++ [addr]) spans where
  byOwner := h.byOwner
  sound := by
    intro span hspan
    refine (h.sound span hspan).concat ?_
    rw [hnone]
    exact nofun
  complete := by
    intro seen hseen owner howner
    rcases List.mem_append.1 hseen with hold | hnew
    · exact h.complete seen hold owner howner
    · rw [List.mem_singleton.1 hnew, hnone] at howner
      cases howner

/-- An address above the others with an owner extends the record. -/
theorem extend (h : Records owner? addrs spans) {owner : Nat} (howner : owner? addr = some owner)
    (habove : ∀ earlier ∈ addrs, earlier ≤ addr) :
    Records owner? (addrs ++ [addr]) (LostSpan.extend owner addr spans) := by
  have hordered := h.byOwner.extend owner addr
  obtain ⟨low, hmem, hbefore⟩ := h.byOwner.exists_mem_extend owner addr
  refine ⟨hordered, fun span hspan => ?_, fun seen hseen seenOwner hseenOwner => ?_⟩
  · by_cases heq : span.owner = owner
    · -- The one span of the owner goes on to the address, which is above all the others.
      obtain rfl := hordered.eq_of_owner_eq hspan hmem heq
      rcases hbefore with ⟨high, hhigh⟩ | ⟨rfl, hnone⟩
      · exact (h.sound _ hhigh).stretch howner habove
      · refine .single howner fun earlier hearlier hholds => ?_
        obtain ⟨found, hfound, hsame⟩ := h.complete earlier hearlier owner hholds
        exact hnone found hfound hsame
    · refine (h.sound span ((mem_extend_iff_of_ne heq).1 hspan)).concat ?_
      rw [howner]
      exact fun hsome => heq (Option.some.inj hsome).symm
  · by_cases heq : seenOwner = owner
    · exact ⟨_, hmem, heq.symm⟩
    · have hold : seen ∈ addrs := by
        rcases List.mem_append.1 hseen with hold | hnew
        · exact hold
        · rw [List.mem_singleton.1 hnew, howner] at hseenOwner
          exact absurd (Option.some.inj hseenOwner).symm heq
      obtain ⟨found, hfound, hsame⟩ := h.complete seen hold seenOwner hseenOwner
      exact ⟨found, (mem_extend_iff_of_ne (hsame ▸ heq)).2 hfound, hsame⟩

end Records

/-! ## Mapping devices -/

/-- A range is in increasing order. -/
theorem pairwise_addressRange (first last : UInt16) :
    (addressRange first last).Pairwise (· < ·) := by
  have hlast := last.toNat_lt_size
  have hvalue : ∀ n ∈ List.range' first.toNat (last.toNat + 1 - first.toNat),
      (UInt16.ofNat n).toNat = n := by
    intro n hn
    rw [List.mem_range'_1] at hn
    exact UInt16.toNat_ofNat_of_lt' (by omega)
  rw [addressRange, List.pairwise_map]
  refine List.Pairwise.imp_of_mem (fun {n m} hn hm hlt => ?_) List.pairwise_lt_range'
  rw [UInt16.lt_iff_toNat_lt, hvalue n hn, hvalue m hm]
  exact hlt

namespace MemoryBus

/-- What is recorded of a range is what its owners hold of it: by induction on the addresses, the
highest one last. -/
theorem records_lostSpans (bus : MemoryBus) (first last : UInt16) :
    Records bus.owner? (addressRange first last) (bus.lostSpans first last) := by
  have hordered := pairwise_addressRange first last
  rw [lostSpans]
  generalize addressRange first last = addrs at hordered
  induction addrs using List.reverseRecOn with
  | nil => exact .nil
  | append_singleton addrs addr ih =>
    obtain ⟨hrest, -, habove⟩ := List.pairwise_append.1 hordered
    rw [List.foldl_append, List.foldl_cons, List.foldl_nil]
    cases howner : bus.owner? addr with
    | none => exact (ih hrest).skip howner
    | some owner =>
      refine (ih hrest).extend howner fun earlier hearlier => ?_
      exact UInt16.le_of_lt (habove earlier hearlier addr (List.mem_singleton_self addr))

theorem mem_lostSpans_iff {bus : MemoryBus} {d : Device} {span : LostSpan} :
    span ∈ bus.lostSpans d.first d.last ↔
      IsExtent bus.owner? (fun addr => d.contains addr = true) span := by
  have hrange : ∀ addr, addr ∈ addressRange d.first d.last ↔ d.contains addr = true := by
    intro addr
    rw [mem_addressRange, Device.contains, Bool.and_eq_true, decide_eq_true_eq, decide_eq_true_eq]
  rw [(bus.records_lostSpans d.first d.last).mem_iff]
  exact ⟨fun h => h.of_iff fun addr _ => hrange addr,
    fun h => h.of_iff fun addr _ => (hrange addr).symm⟩

/-- An owner of a range has an extent in it. -/
theorem exists_mem_lostSpans {bus : MemoryBus} {d : Device} {owner : Nat} :
    (∃ span ∈ bus.lostSpans d.first d.last, span.owner = owner) ↔
      ∃ addr, d.contains addr = true ∧ bus.owner? addr = some owner := by
  constructor
  · rintro ⟨span, hspan, rfl⟩
    have hextent := mem_lostSpans_iff.1 hspan
    exact ⟨span.low, hextent.low_claimed, hextent.low_owner⟩
  · rintro ⟨addr, haddr, howner⟩
    rw [Device.contains, Bool.and_eq_true, decide_eq_true_eq, decide_eq_true_eq,
      ← mem_addressRange] at haddr
    exact (bus.records_lostSpans d.first d.last).complete addr haddr owner howner

/-! ## Warnings -/

/-- An event is the warning that a new device takes a span from an earlier one. -/
structure IsWarning (d earlier : Device) (span : LostSpan) (event : Event) : Prop where
  event_eq : event = .overridden d.name d.first d.last earlier.name span.low span.high
  level_eq : event.level = .warn
  message_eq : event.message =
    d.name ++ " at " ++ ("0x" ++ Text.Hex.wordText d.first ++ "-" ++
      ("0x" ++ Text.Hex.wordText d.last)) ++ " overrides " ++ earlier.name ++ " at " ++
      ("0x" ++ Text.Hex.wordText span.low ++ "-" ++ ("0x" ++ Text.Hex.wordText span.high))

/-- Some warnings are those of mapping a device to a bus with a history. -/
structure WarnsExactly (past : List RoutingCall) (bus : MemoryBus) (d : Device)
    (warnings : List Event) : Prop where
  /-- The owner of an address is the device that was mapped last among those that contain it. -/
  owner_eq : ∀ addr, bus.owner? addr = latest? addr (mappings past)
  /-- There is one warning for each extent, in increasing order of the owners. -/
  warned : ∃ spans : List LostSpan, ByOwner spans ∧
    (∀ span, span ∈ spans ↔ IsExtent bus.owner? (fun addr => d.contains addr = true) span) ∧
    (∀ owner, (∃ span ∈ spans, span.owner = owner) ↔
      ∃ addr, d.contains addr = true ∧ bus.owner? addr = some owner) ∧
    List.Forall₂ (fun span event => ∃ earlier, (mappings past)[span.owner]? = some earlier ∧
      IsWarning d earlier span event) spans warnings
  none_iff : warnings = [] ↔ ∀ addr, d.contains addr = true → bus.isMapped addr = false

/-- The warnings among some events. -/
def warningsOf (events : List Event) : List Event :=
  events.filter fun event => event.level = .warn

/-- The warnings of mapping a device are those of the spans that it takes. -/
theorem warningsOf_claimEvents (bus : MemoryBus) (d : Device) :
    warningsOf (bus.claimEvents d) = (bus.lostSpans d.first d.last).map fun span =>
      .overridden d.name d.first d.last ((bus.devices[span.owner]?).elim "" Device.name)
        span.low span.high := by
  have hmapped : ¬ (mappedEvent d).level = .warn := by
    rw [mappedEvent, Event.level]
    decide
  rw [warningsOf, claimEvents, List.filter_append, List.filter_cons_of_neg (by simpa using hmapped),
    List.filter_nil, List.append_nil, List.filter_eq_self]
  intro event hevent
  obtain ⟨span, -, rfl⟩ := List.mem_map.1 hevent
  rfl

/-- The device at the position of an owner has the name under which it was mapped. -/
theorem Run.exists_mapping {past : List RoutingCall} {bus : MemoryBus} (h : Run past bus)
    {addr : UInt16} {owner : Nat} (howner : bus.owner? addr = some owner) :
    ∃ earlier, (mappings past)[owner]? = some earlier ∧
      (bus.devices[owner]?).elim "" Device.name = earlier.name := by
  have hfollows := h.follows
  rw [hfollows.owner] at howner
  obtain ⟨d, hlatest⟩ := latest?_eq_some_iff.1 howner
  -- The history leaves the claim of the device, and with it the name.
  have hclaim : ((lineup past)[owner]?).map Device.claimed =
      ((mappings past)[owner]?).map Device.claimed := by
    rw [← List.getElem?_map, ← List.getElem?_map, claimed_lineup]
  rw [hlatest.place, Option.map_some] at hclaim
  obtain ⟨earlier, hplace, hclaimed⟩ := Option.map_eq_some_iff.1 hclaim.symm
  refine ⟨earlier, hplace, ?_⟩
  rw [← Array.getElem?_toList, hfollows.devices, hlatest.place]
  exact (congrArg Prod.fst hclaimed).symm

/-- Mapping a device warns of what the earlier devices lose. -/
theorem Run.warnsExactly {past : List RoutingCall} {bus : MemoryBus} (h : Run past bus)
    (d : Device) : WarnsExactly past bus d (warningsOf (bus.claimEvents d)) := by
  refine ⟨fun addr => ?_, ⟨bus.lostSpans d.first d.last,
    (bus.records_lostSpans d.first d.last).byOwner, fun _ => mem_lostSpans_iff,
    fun _ => exists_mem_lostSpans, ?_⟩, ?_⟩
  · rw [h.follows.owner]
    exact latest?_congr (claimed_lineup past)
  · rw [warningsOf_claimEvents, List.forall₂_map_right_iff, List.forall₂_same]
    intro span hspan
    obtain ⟨earlier, hplace, hname⟩ := h.exists_mapping (mem_lostSpans_iff.1 hspan).low_owner
    rw [hname]
    exact ⟨earlier, hplace, rfl, rfl, rfl⟩
  · rw [warningsOf_claimEvents, List.map_eq_nil_iff, List.eq_nil_iff_forall_not_mem]
    constructor
    · intro hnone addr haddr
      rw [isMapped]
      cases howner : bus.owner? addr with
      | none => rfl
      | some owner =>
        obtain ⟨span, hspan, -⟩ := exists_mem_lostSpans.2 ⟨addr, haddr, howner⟩
        exact absurd hspan (hnone span)
    · intro hunmapped span hspan
      have hextent := mem_lostSpans_iff.1 hspan
      have hlow := hunmapped span.low hextent.low_claimed
      rw [isMapped, hextent.low_owner] at hlow
      cases hlow

/-- After every history, a session that maps a device logs one warning for each earlier device that
owned an address of its range. -/
theorem mapping_warns_exactly {past : List RoutingCall} {bus later : MemoryBus} {d : Device}
    {index : Nat} {m : Machine} (h : Run past bus) (hmap : bus.mapDevice d = .ok (index, later))
    (hbus : m.board.space = .mapped bus) :
    ∃ logged : List Event,
      Session.mapDevice (.ok d) m = (.ok index,
        { m with board := ⟨m.board.slot, .mapped later, m.board.events.appendList logged⟩ }) ∧
      WarnsExactly past bus d (warningsOf logged) := by
  refine ⟨bus.claimEvents d, ?_, h.warnsExactly d⟩
  rw [Session.mapDevice_eq hbus, hmap]

/-- A device over the middle of two earlier ones takes all of the inner one, and from the outer one
what lies around it. The warnings are one for each, and the span of the outer one has the inner one in
it. -/
theorem mapping_warns_exactly_interrupted :
    let outer := Device.memory "outer" 0x0000 0x0010
    let inner := Device.memory "inner" 0x0004 0x0006
    let cover := Device.memory "cover" 0x0002 0x0008
    let past := [.map outer, .map inner]
    ∃ bus later logged, Run past bus ∧ bus.mapDevice cover = .ok (2, later) ∧
      WarnsExactly past bus cover (warningsOf logged) ∧ warningsOf logged ≠ [] ∧
      IsExtent bus.owner? (fun addr => cover.contains addr = true) ⟨0, 0x0002, 0x0008⟩ ∧
      bus.owner? 0x0005 = some 1 := by
  intro outer inner cover past
  have hroom : ∀ (bus : MemoryBus) (d : Device), bus.devices.size < capacity → d.first ≤ d.last →
      bus.mapDevice d = .ok (bus.devices.size, bus.claim d) := by
    intro bus d hsize hrange
    exact mapDevice_eq_ok_iff.2 ⟨refusal?_eq_none_iff.2 ⟨hrange, hsize⟩, rfl, rfl⟩
  have hfirst := Run.start.map (hroom empty outer (by decide) (by decide))
  have hrun := hfirst.map (hroom _ inner (show 1 < capacity by decide) (by decide))
  have hmap := hroom ((empty.claim outer).claim inner) cover (show 2 < capacity by decide)
    (by decide)
  obtain ⟨logged, -, hwarns⟩ := mapping_warns_exactly hrun hmap
    (m := .ofSpaces none (.mapped ((empty.claim outer).claim inner)) (.mapped empty)) rfl
  have howner := hwarns.owner_eq
  have hlow : ((empty.claim outer).claim inner).owner? 0x0002 = some 0 := by
    rw [howner]
    decide +kernel
  refine ⟨_, _, logged, hrun, hmap, hwarns, fun hnone => ?_, ?_, ?_⟩
  · have hunmapped := hwarns.none_iff.1 hnone 0x0002 (by decide)
    rw [isMapped, hlow] at hunmapped
    cases hunmapped
  · refine ⟨by decide, hlow, by decide, ?_, fun addr haddr _ => ?_⟩
    · rw [howner]
      decide +kernel
    · rw [Device.contains, Bool.and_eq_true, decide_eq_true_eq, decide_eq_true_eq] at haddr
      exact haddr
  · rw [howner]
    decide +kernel

end MemoryBus

end NesMachine
