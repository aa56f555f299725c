import NesMachine.Proofs.Wiring.Slot

/-!
# A cartridge that many buses share

On a workbench any number of standard buses are built around one cartridge, and calls to them
interleave. Every run keeps `Workbench.Shared` (`Workbench.Run.shared`), so at any moment the
register of the cartridge, its pattern memory and the memory of each bus can be read off the calls
so far (`Workbench.shared_cartridge`). Nametable memory belongs to one bus and is not reached
through the pattern window (`Workbench.pattern_write_not_in_nametable`).
-/

set_option autoImplicit false

namespace NesMachine

/-- A cartridge in a slot and the standard buses that have been built around it. -/
structure Workbench where
  slot : Slot
  references : List AddressSpace
  pictures : List AddressSpace

/-- What is done on a workbench. -/
inductive BenchCall where
  /-- Build another bus of the processor. -/
  | wireReference
  /-- Build another bus of the picture unit. -/
  | wirePicture
  /-- Call one of the processor's buses. -/
  | onReference (index : Nat) (call : BusCall)
  /-- Call one of the picture unit's buses. -/
  | onPicture (index : Nat) (call : BusCall)

namespace BenchCall

/-- The call to any of the processor's buses, if it is one. -/
def reference? : BenchCall → Option BusCall
  | .onReference _ call => some call
  | _ => none

/-- The call to any of the picture unit's buses, if it is one. -/
def picture? : BenchCall → Option BusCall
  | .onPicture _ call => some call
  | _ => none

/-- The call to one of the picture unit's buses, if it is one. -/
def pictureAt? (index : Nat) : BenchCall → Option BusCall
  | .onPicture target call => if target = index then some call else none
  | _ => none

end BenchCall

namespace Workbench

/-- A workbench with a cartridge and no buses. -/
def ofCartridge (c : Cartridge) : Workbench :=
  ⟨some c, [], []⟩

/-- Call one of some address spaces around a slot. -/
def callSpace (slot : Slot) (spaces : List AddressSpace) (index : Nat) (call : BusCall) :
    Slot × List AddressSpace :=
  match spaces[index]? with
  | none => (slot, spaces)
  | some space =>
      let board := Bus.afterCall (Board.ofSpace slot space) call
      (board.slot, spaces.set index board.space)

/-- The workbench after something is done on it. -/
def perform (w : Workbench) : BenchCall → Workbench
  | .wireReference =>
      { w with references := w.references ++
          (w.slot.map fun c => .mapped (Wiring.referenceBus c)).toList }
  | .wirePicture =>
      { w with pictures := w.pictures ++
          (w.slot.map fun c => .mapped (Wiring.pictureBus c)).toList }
  | .onReference index call =>
      let (slot, references) := callSpace w.slot w.references index call
      { w with slot, references }
  | .onPicture index call =>
      let (slot, pictures) := callSpace w.slot w.pictures index call
      { w with slot, pictures }

/-- What may be done: the buses that are called have been built, and those of the picture unit are
called below `4000`. -/
def allows (w : Workbench) : BenchCall → Prop
  | .wireReference | .wirePicture => True
  | .onReference index _ => index < w.references.length
  | .onPicture index call => index < w.pictures.length ∧ call.addr < 0x4000

/-- The runs of a workbench with a cartridge. -/
inductive Run (c : Cartridge) : List BenchCall → Workbench → Prop where
  | start : Run c [] (ofCartridge c)
  | next {past : List BenchCall} {w : Workbench} {call : BenchCall} (hrun : Run c past w)
      (hallowed : w.allows call) : Run c (past ++ [call]) (w.perform call)

/-! ## The invariant -/

/-- What a workbench has become after a run: the cartridge is in use, and each of its buses recalls
the calls that were made to it. -/
structure Shared (c : Cartridge) (past : List BenchCall) (w : Workbench) : Prop where
  slot_eq : ∃ slotted, w.slot = some slotted ∧
    c.InUse (selectedBy (past.filterMap BenchCall.reference?)) slotted ∧
    c.PatternRecalls (past.filterMap BenchCall.picture?) slotted
  references_eq : ∀ space ∈ w.references, ∃ bus calls, space = AddressSpace.mapped bus ∧
    (Wiring.referenceBus c).Recalls calls bus
  pictures_eq : ∀ {index space}, w.pictures[index]? = some space →
    ∃ bus, space = AddressSpace.mapped bus ∧
      (Wiring.pictureBus c).Recalls (past.filterMap (BenchCall.pictureAt? index)) bus
  unbuilt_eq : ∀ {index}, w.pictures.length ≤ index →
    past.filterMap (BenchCall.pictureAt? index) = []

variable {c : Cartridge} {past : List BenchCall} {w : Workbench}

/-- The calls of one kind after one more call. -/
theorem filterMap_concat (kind : BenchCall → Option BusCall) (past : List BenchCall)
    (call : BenchCall) :
    (past ++ [call]).filterMap kind = past.filterMap kind ++ (kind call).toList := by
  rw [List.filterMap_append]
  cases hkind : kind call <;> simp [hkind]

theorem filterMap_concat_of_none {kind : BenchCall → Option BusCall} {call : BenchCall}
    (h : kind call = none) (past : List BenchCall) :
    (past ++ [call]).filterMap kind = past.filterMap kind := by
  rw [filterMap_concat, h, Option.toList_none, List.append_nil]

theorem referenceBus_congr {slotted : Cartridge} (h : slotted.header = c.header) :
    Wiring.referenceBus slotted = Wiring.referenceBus c := by
  rw [Wiring.referenceBus, Wiring.referenceBus, Wiring.upperDevices, Wiring.upperDevices, h]

theorem pictureBus_congr {slotted : Cartridge} (h : slotted.header = c.header) :
    Wiring.pictureBus slotted = Wiring.pictureBus c := by
  rw [Wiring.pictureBus, Wiring.pictureBus, Wiring.pictureDevices, Wiring.pictureDevices, h]

theorem callSpace_mapped {spaces : List AddressSpace} {index : Nat} {bus : MemoryBus}
    (h : spaces[index]? = some (.mapped bus)) (slot : Slot) (call : BusCall) :
    callSpace slot spaces index call =
      (bus.slotAfter slot call, spaces.set index (.mapped (bus.afterCall call))) := by
  obtain ⟨later, hlater⟩ := Board.afterCall_mapped slot bus #[] call
  rw [callSpace, h]
  dsimp only
  rw [Board.ofSpace, hlater]

namespace Shared

theorem start {image : Array UInt8} (hc : Cartridge.ofImage image = .ok c) :
    Shared c [] (ofCartridge c) where
  slot_eq :=
    ⟨c, rfl, .start (Cartridge.complete_of_ofImage hc) (Cartridge.bankSelect_of_ofImage hc),
      .start hc⟩
  references_eq space hspace := by cases hspace
  pictures_eq hspace := by cases hspace
  unbuilt_eq _ := rfl

/-- Another bus of the processor changes nothing else. -/
theorem wireReference (h : Shared c past w) :
    Shared c (past ++ [.wireReference]) (w.perform .wireReference) := by
  obtain ⟨slotted, hslot, huse, hpattern⟩ := h.slot_eq
  have hspaces : (w.perform .wireReference).references =
      w.references ++ [.mapped (Wiring.referenceBus c)] := by
    rw [perform, hslot, ← referenceBus_congr huse.header_eq]
    rfl
  -- Building a bus is no call, so no history grows and only the new bus is to be looked at.
  refine ⟨⟨slotted, hslot, ?_, ?_⟩, fun space hspace => ?_, fun {index space} hspace => ?_,
    fun {index} hindex => ?_⟩
  · rw [filterMap_concat_of_none rfl]
    exact huse
  · rw [filterMap_concat_of_none rfl]
    exact hpattern
  · rw [hspaces] at hspace
    rcases List.mem_append.1 hspace with hold | hnew
    · exact h.references_eq space hold
    · exact ⟨_, [], List.mem_singleton.1 hnew, .start (Wiring.cleared_referenceBus c)⟩
  · rw [filterMap_concat_of_none rfl]
    exact h.pictures_eq hspace
  · rw [filterMap_concat_of_none rfl]
    exact h.unbuilt_eq hindex

/-- Another bus of the picture unit starts with nothing stored in it. -/
theorem wirePicture (h : Shared c past w) :
    Shared c (past ++ [.wirePicture]) (w.perform .wirePicture) := by
  obtain ⟨slotted, hslot, huse, hpattern⟩ := h.slot_eq
  have hspaces : (w.perform .wirePicture).pictures =
      w.pictures ++ [.mapped (Wiring.pictureBus c)] := by
    rw [perform, hslot, ← pictureBus_congr huse.header_eq]
    rfl
  refine ⟨⟨slotted, hslot, ?_, ?_⟩, h.references_eq, fun {index space} hspace => ?_,
    fun {index} hindex => ?_⟩
  · rw [filterMap_concat_of_none rfl]
    exact huse
  · rw [filterMap_concat_of_none rfl]
    exact hpattern
  · rw [filterMap_concat_of_none rfl]
    rw [hspaces, List.getElem?_append] at hspace
    split at hspace
    · exact h.pictures_eq hspace
    · -- The new bus: no call can have been made to a position that nothing had been built at.
      rename_i hnew
      rw [h.unbuilt_eq (Nat.not_lt.1 hnew)]
      obtain rfl := List.mem_singleton.1 (List.mem_of_getElem? hspace)
      exact ⟨_, rfl, .start (Wiring.cleared_pictureBus c)⟩
  · rw [filterMap_concat_of_none rfl]
    rw [hspaces, List.length_append] at hindex
    exact h.unbuilt_eq (Nat.le_of_add_right_le hindex)

/-- A call to a bus of the processor reaches that bus and the register. -/
theorem onReference (h : Shared c past w) {index : Nat} {call : BusCall}
    (hallowed : w.allows (.onReference index call)) :
    Shared c (past ++ [.onReference index call]) (w.perform (.onReference index call)) := by
  obtain ⟨slotted, hslot, huse, hpattern⟩ := h.slot_eq
  have hplace := List.getElem?_eq_getElem hallowed
  obtain ⟨bus, calls, hspace, hbus⟩ := h.references_eq _ (List.getElem_mem hallowed)
  rw [hspace] at hplace
  have hperform : w.perform (.onReference index call) =
      ⟨some (slotted.afterReference call), w.references.set index (.mapped (bus.afterCall call)),
        w.pictures⟩ := by
    rw [perform, hslot, callSpace_mapped hplace, Wiring.slotAfter_referenceBus hbus]
  rw [hperform]
  refine ⟨⟨_, rfl, ?_, ?_⟩, fun space hspace => ?_, fun {target space} hspace => ?_,
    fun {target} htarget => ?_⟩
  · rw [filterMap_concat]
    exact huse.afterReference call
  · rw [filterMap_concat_of_none rfl]
    exact hpattern.afterReference huse call
  · -- Which calls went to which of these buses does not matter: their layout answers.
    rcases List.mem_or_eq_of_mem_set hspace with hold | rfl
    · exact h.references_eq space hold
    · exact ⟨_, _, rfl, hbus.concat (Wiring.latchless_referenceBus c) call⟩
  · rw [filterMap_concat_of_none rfl]
    exact h.pictures_eq hspace
  · rw [filterMap_concat_of_none rfl]
    exact h.unbuilt_eq htarget

/-- A call to a bus of the picture unit reaches that bus and pattern memory. -/
theorem onPicture (h : Shared c past w) {index : Nat} {call : BusCall}
    (hallowed : w.allows (.onPicture index call)) :
    Shared c (past ++ [.onPicture index call]) (w.perform (.onPicture index call)) := by
  obtain ⟨slotted, hslot, huse, hpattern⟩ := h.slot_eq
  have hplace := List.getElem?_eq_getElem hallowed.1
  obtain ⟨bus, hspace, hbus⟩ := h.pictures_eq hplace
  rw [hspace] at hplace
  have hperform : w.perform (.onPicture index call) =
      ⟨some (slotted.afterPicture call), w.references,
        w.pictures.set index (.mapped (bus.afterCall call))⟩ := by
    rw [perform, hslot, callSpace_mapped hplace, Wiring.slotAfter_pictureBus hbus]
  rw [hperform]
  refine ⟨⟨_, rfl, ?_, ?_⟩, h.references_eq, fun {target space} hspace => ?_,
    fun {target} htarget => ?_⟩
  · rw [filterMap_concat_of_none rfl]
    exact huse.afterPicture call
  · rw [filterMap_concat]
    exact hpattern.afterPicture huse call
  · -- The call is in the history of the bus that it went to, and in no other.
    rw [filterMap_concat, BenchCall.pictureAt?]
    dsimp only at hspace
    rw [List.getElem?_set] at hspace
    by_cases hsame : index = target
    · subst hsame
      rw [if_pos rfl, if_pos hallowed.1] at hspace
      obtain rfl := Option.some.inj hspace
      rw [if_pos rfl]
      exact ⟨_, rfl, hbus.concat (Wiring.latchless_pictureBus c) call⟩
    · rw [if_neg hsame] at hspace
      rw [if_neg hsame, Option.toList_none, List.append_nil]
      exact h.pictures_eq hspace
  · dsimp only at htarget
    rw [List.length_set] at htarget
    have hother : index ≠ target := Nat.ne_of_lt (Nat.lt_of_lt_of_le hallowed.1 htarget)
    rw [filterMap_concat_of_none (if_neg hother)]
    exact h.unbuilt_eq htarget

end Shared

/-- Every run keeps the invariant. -/
theorem Run.shared {image : Array UInt8} (hc : Cartridge.ofImage image = .ok c)
    (hrun : Run c past w) : Shared c past w := by
  induction hrun with
  | start => exact .start hc
  | next _ hallowed ih =>
    rename_i call _
    cases call with
    | wireReference => exact ih.wireReference
    | wirePicture => exact ih.wirePicture
    | onReference index call => exact ih.onReference hallowed
    | onPicture index call => exact ih.onPicture hallowed

/-! ## What the buses show -/

/-- The byte that some calls wrote last to the nametable cell of an address. -/
def nametableAt (addr : UInt16) (calls : List BusCall) : UInt8 :=
  lastWritten (BusCall.written? fun a =>
    0x2000 ≤ a ∧ a < 0x4000 ∧ a.toNat % 0x800 = addr.toNat % 0x800) calls

/-- Nametable addresses share a cell if they agree modulo the size of a page. -/
theorem cell?_pictureBus_eq_iff (c : Cartridge) {addr : UInt16} (hlow : 0x2000 ≤ addr)
    (hhigh : addr < 0x4000) (other : UInt16) :
    (Wiring.pictureBus c).cell? other = (Wiring.pictureBus c).cell? addr ↔
      0x2000 ≤ other ∧ other < 0x4000 ∧ other.toNat % 0x800 = addr.toNat % 0x800 := by
  rw [Wiring.cell?_pictureBus, Wiring.cell?_pictureBus]
  simp only [UInt16.lt_iff_toNat_lt, UInt16.le_iff_toNat_le] at hlow hhigh ⊢
  grind

namespace Shared

/-- No address of a processor's bus is a fault. -/
theorem reference_fault? (h : Shared c past w) {space : AddressSpace}
    (hspace : space ∈ w.references) (addr : UInt16) :
    (Board.ofSpace w.slot space).fault? addr = none := by
  obtain ⟨slotted, hslot, huse, -⟩ := h.slot_eq
  obtain ⟨bus, calls, rfl, hbus⟩ := h.references_eq space hspace
  show bus.fault? w.slot addr = none
  rw [hslot, hbus.fault?_eq]
  exact Wiring.fault?_referenceBus huse.complete addr

section Picture

variable {index : Nat} {space : AddressSpace} {addr : UInt16}

/-- No address below `4000` of a picture unit's bus is a fault. -/
theorem picture_fault? (h : Shared c past w) (hspace : w.pictures[index]? = some space)
    (haddr : addr < 0x4000) : (Board.ofSpace w.slot space).fault? addr = none := by
  obtain ⟨slotted, hslot, huse, -⟩ := h.slot_eq
  obtain ⟨bus, rfl, hbus⟩ := h.pictures_eq hspace
  show bus.fault? w.slot addr = none
  rw [hslot, hbus.fault?_eq]
  exact Wiring.fault?_pictureBus huse.complete haddr

theorem picture_read (h : Shared c past w) (hspace : w.pictures[index]? = some space)
    (addr : UInt16) :
    Bus.read (Board.ofSpace w.slot space) addr =
      (Bus.peek (Board.ofSpace w.slot space) addr, Board.ofSpace w.slot space) := by
  obtain ⟨bus, rfl, hbus⟩ := h.pictures_eq hspace
  show Board.read _ addr = _
  rw [Board.ofSpace, Board.read, hbus.afterRead_eq (Wiring.latchless_pictureBus c)]
  rfl

theorem picture_pattern (h : Shared c past w) (hspace : w.pictures[index]? = some space)
    (haddr : addr < 0x2000) {slotted : Cartridge} (hslot : w.slot = some slotted) :
    Bus.peek (Board.ofSpace w.slot space) addr = slotted.peekChr addr := by
  obtain ⟨bus, rfl, hbus⟩ := h.pictures_eq hspace
  have hcell : (Wiring.pictureBus c).cell? addr = none := by
    rw [Wiring.cell?_pictureBus, if_neg fun hrange => UInt16.not_lt.2 hrange.1 haddr]
  show bus.peek w.slot addr = _
  rw [hslot, hbus.peek_of_no_cell (Wiring.latchless_pictureBus c) hcell,
    Wiring.peek_pictureBus c haddr]
  rfl

/-- From `2000` on a picture unit's bus shows what was written last to the cell through it. -/
theorem picture_nametable (h : Shared c past w) (hspace : w.pictures[index]? = some space)
    (hlow : 0x2000 ≤ addr) (hhigh : addr < 0x4000) :
    Bus.peek (Board.ofSpace w.slot space) addr =
      nametableAt addr (past.filterMap (BenchCall.pictureAt? index)) := by
  obtain ⟨bus, rfl, hbus⟩ := h.pictures_eq hspace
  have hcell := Wiring.cell?_pictureBus c addr
  rw [if_pos ⟨hlow, hhigh⟩] at hcell
  show bus.peek w.slot addr = _
  rw [hbus.peek_eq hcell, ← hcell, nametableAt]
  simp only [cell?_pictureBus_eq_iff c hlow hhigh]

end Picture

end Shared

/-- What the cartridge holds and what its buses show after a run. -/
structure Observed (c : Cartridge) (past : List BenchCall) (w : Workbench) : Prop where
  /-- Program memory and pattern ROM are those of the cartridge, and the register holds the bank for
  the value written last through any of the processor's buses. -/
  cartridge : ∃ slotted, w.slot = some slotted ∧ slotted.prg = c.prg ∧
    (c.header.chrIsRam = false → slotted.chr = c.chr) ∧
    slotted.bankSelect.toNat =
      c.registerFor (selectedBy (past.filterMap BenchCall.reference?))
  /-- No call to a bus of the processor is a fault. -/
  references_answer : ∀ space ∈ w.references, ∀ addr,
    (Board.ofSpace w.slot space).fault? addr = none
  /-- No call below `4000` to a bus of the picture unit is a fault, and reads are peeks. -/
  pictures_answer : ∀ {index : Nat} {space : AddressSpace}, w.pictures[index]? = some space →
    ∀ {addr : UInt16}, addr < 0x4000 →
      (Board.ofSpace w.slot space).fault? addr = none ∧
        Bus.read (Board.ofSpace w.slot space) addr =
          (Bus.peek (Board.ofSpace w.slot space) addr, Board.ofSpace w.slot space)
  /-- Pattern ROM is seen through every bus in the bank that was selected last. -/
  pattern_rom : c.header.chrIsRam = false → ∀ {index : Nat} {space : AddressSpace},
    w.pictures[index]? = some space → ∀ {addr : UInt16}, addr < 0x2000 →
      c.chr[c.patternPlace (selectedBy (past.filterMap BenchCall.reference?)) addr]? =
        some (Bus.peek (Board.ofSpace w.slot space) addr)
  /-- Writable pattern memory is seen through every bus as it was written last through any. -/
  pattern_ram : c.header.chrIsRam = true → ∀ {index : Nat} {space : AddressSpace},
    w.pictures[index]? = some space → ∀ {addr : UInt16}, addr < 0x2000 →
      Bus.peek (Board.ofSpace w.slot space) addr =
        lastWritten (BusCall.written? fun a => a = addr) (past.filterMap BenchCall.picture?)
  /-- Nametable memory belongs to one bus. -/
  nametables : ∀ {index : Nat} {space : AddressSpace}, w.pictures[index]? = some space →
    ∀ {addr : UInt16}, 0x2000 ≤ addr → addr < 0x4000 →
      Bus.peek (Board.ofSpace w.slot space) addr =
        nametableAt addr (past.filterMap (BenchCall.pictureAt? index))

/-- At any moment of any run with an accepted cartridge, what the cartridge holds and what its buses
show can be read off the calls so far. -/
theorem shared_cartridge {image : Array UInt8} (hc : Cartridge.ofImage image = .ok c)
    (hrun : Run c past w) : Observed c past w := by
  have hshared := hrun.shared hc
  obtain ⟨slotted, hslot, huse, hpattern⟩ := hshared.slot_eq
  refine ⟨⟨slotted, hslot, huse.prg_eq, hpattern.rom_eq, huse.register_eq⟩,
    fun space hspace addr => hshared.reference_fault? hspace addr,
    fun hspace _ haddr => ⟨hshared.picture_fault? hspace haddr, hshared.picture_read hspace _⟩,
    fun hrom _ _ hspace _ haddr => ?_, fun hram _ _ hspace _ haddr => ?_,
    fun hspace _ hlow hhigh => hshared.picture_nametable hspace hlow hhigh⟩
  · rw [hshared.picture_pattern hspace haddr hslot, ← hpattern.rom_eq hrom]
    exact huse.getElem?_patternPlace hrom haddr
  · rw [hshared.picture_pattern hspace haddr hslot]
    exact hpattern.ram_eq hram haddr

/-- On a board with two program banks and writable pattern memory, a write to the program window
selects the other bank, and what is written through one bus of the picture unit is read through
another. -/
theorem shared_cartridge_two_buses :
    ∃ c w, Cartridge.ofImage (Cartridge.headerBytes .uxrom 2 0 ++ Array.replicate 0x8000 0) =
        .ok c ∧
      Run c ([] ++ [.wireReference] ++ [.wirePicture] ++ [.wirePicture] ++
        [.onReference 0 (.write 0x8000 3)] ++ [.onPicture 0 (.write 0x0123 85)]) w ∧
      w.slot.map (fun slotted => slotted.bankSelect.toNat) = some 1 ∧
      ∃ space, w.pictures[1]? = some space ∧
        Bus.peek (Board.ofSpace w.slot space) 0x0123 = 85 := by
  have hbody : (Array.replicate 0x8000 0 : Array UInt8).size =
      (2 : UInt8).toNat * prgBankSize + (0 : UInt8).toNat * chrBankSize := by
    simp [prgBankSize]
  obtain ⟨chr, himage⟩ := Cartridge.ofImage_of_body .uxrom 2 0 (by decide) hbody
  generalize hc : Cartridge.mk .. = c at himage
  have hrun : Run c ([] ++ [.wireReference] ++ [.wirePicture] ++ [.wirePicture] ++
      [.onReference 0 (.write 0x8000 3)] ++ [.onPicture 0 (.write 0x0123 85)]) _ :=
    .next (.next (.next (.next (.next .start trivial) trivial) trivial) (Nat.zero_lt_one))
      ⟨Nat.zero_lt_two, by decide⟩
  have hseen := shared_cartridge himage hrun
  obtain ⟨slotted, hslot, -, -, hregister⟩ := hseen.cartridge
  have hselected : selectedBy (([] ++ [BenchCall.wireReference] ++ [BenchCall.wirePicture] ++
      [BenchCall.wirePicture] ++ [BenchCall.onReference 0 (.write 0x8000 3)] ++
      [BenchCall.onPicture 0 (.write 0x0123 85)]).filterMap BenchCall.reference?) = 3 := by decide
  have hspace : ((((((ofCartridge c).perform .wireReference).perform .wirePicture).perform
      .wirePicture).perform (.onReference 0 (.write 0x8000 3))).perform
        (.onPicture 0 (.write 0x0123 85))).pictures[1]? = some _ := rfl
  refine ⟨c, _, himage, hrun, ?_, _, hspace, ?_⟩
  · rw [hslot, Option.map_some, hregister, hselected]
    simp [← hc, Cartridge.registerFor, Cartridge.prgBanks]
  · rw [hseen.pattern_ram (by rw [← hc]; rfl) hspace (by decide)]
    decide

/-- Nametable memory is not reached through the pattern window: what is written to a pattern address
is not shown at a nametable address that equals it modulo the size of a page. -/
theorem pattern_write_not_in_nametable :
    ∃ c w space, Cartridge.ofImage (Cartridge.headerBytes .nrom 1 0 ++ Array.replicate 0x4000 0) =
        .ok c ∧
      Run c ([] ++ [.wirePicture] ++ [.onPicture 0 (.write 0x0000 85)]) w ∧
      w.pictures[0]? = some space ∧
      Bus.peek (Board.ofSpace w.slot space) 0x2000 ≠
        lastWritten (BusCall.written? fun a => a.toNat % 0x800 = (0x2000 : UInt16).toNat % 0x800)
          (([] ++ [BenchCall.wirePicture] ++ [BenchCall.onPicture 0 (.write 0x0000 85)]).filterMap
            (BenchCall.pictureAt? 0)) := by
  have hbody : (Array.replicate 0x4000 0 : Array UInt8).size =
      (1 : UInt8).toNat * prgBankSize + (0 : UInt8).toNat * chrBankSize := by
    simp [prgBankSize]
  obtain ⟨chr, himage⟩ := Cartridge.ofImage_of_body .nrom 1 0 (by decide) hbody
  generalize hc : Cartridge.mk .. = c at himage
  have hrun : Run c ([] ++ [.wirePicture] ++ [.onPicture 0 (.write 0x0000 85)]) _ :=
    .next (.next .start trivial) ⟨Nat.zero_lt_one, by decide⟩
  have hspace : (((ofCartridge c).perform .wirePicture).perform
      (.onPicture 0 (.write 0x0000 85))).pictures[0]? = some _ := rfl
  refine ⟨c, _, _, himage, hrun, hspace, ?_⟩
  rw [(hrun.shared himage).picture_nametable hspace (by decide) (by decide)]
  decide

end Workbench

end NesMachine
