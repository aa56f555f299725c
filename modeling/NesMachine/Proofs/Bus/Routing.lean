import NesMachine.Machine
import NesMachine.Proofs.Bus.Ownership
import NesMachine.Proofs.Bus.Recall

/-!
# Routing after any history

A history of a bus is a list of mappings and accesses, the latest one last. `lineup` follows it
without a table of owners: a new device is put behind the others, and an access changes the last
device that contains its address. Relation: `MemoryBus.Run past bus`, where every mapping of `past`
succeeded. Main statement: `MemoryBus.run_routes_to_latest`. The bus holds the devices of the lineup,
each address is answered by the last of them that contains it, an access to any other address ends a
session, and the next mapping takes the next position without changing what is stored.
-/

set_option autoImplicit false

namespace NesMachine

namespace Device

/-- The device after a call that it answers. -/
def afterCall : BusCall → Device → Device
  | .read _, d => d.afterRead
  | .peek _, d => d
  | .write addr value, d => d.write addr value

/-- What a device claims when it is mapped. -/
def claimed (d : Device) : String × UInt16 × UInt16 :=
  (d.name, d.first, d.last)

@[simp] theorem claimed_afterCall (call : BusCall) (d : Device) :
    (d.afterCall call).claimed = d.claimed := by
  obtain ⟨name, first, last, body⟩ := d
  cases call with
  | read addr => cases body <;> rfl
  | peek addr => rfl
  | write addr value => cases body <;> rfl

theorem contains_congr {d e : Device} (h : d.claimed = e.claimed) : d.contains = e.contains := by
  obtain ⟨-, hrange⟩ := Prod.mk.inj h
  obtain ⟨hfirst, hlast⟩ := Prod.mk.inj hrange
  funext addr
  rw [contains, contains, hfirst, hlast]

end Device

/-! ## The last device that contains an address -/

/-- The device at a position contains an address, and no device behind it does. -/
structure IsLatest (slots : List Device) (addr : UInt16) (index : Nat) (d : Device) : Prop where
  place : slots[index]? = some d
  contains : d.contains addr = true
  last : ∀ later e, index < later → slots[later]? = some e → e.contains addr = false

/-- The position of the last device that contains an address. -/
def latest? (addr : UInt16) : List Device → Option Nat
  | [] => none
  | d :: rest =>
      match latest? addr rest with
      | some index => some (index + 1)
      | none => if d.contains addr then some 0 else none

section Latest

variable {addr : UInt16} {slots : List Device}

/-- There is no last device exactly if no device contains the address. -/
theorem latest?_eq_none_iff : latest? addr slots = none ↔ ∀ d ∈ slots, d.contains addr = false := by
  induction slots with
  | nil => simp [latest?]
  | cons d rest ih =>
    rw [latest?, List.forall_mem_cons, ← ih]
    cases hrest : latest? addr rest with
    | some index => simp
    | none => simp

/-- The position that is found is the one of the last device. -/
theorem latest?_eq_some_iff {index : Nat} :
    latest? addr slots = some index ↔ ∃ d, IsLatest slots addr index d := by
  induction slots generalizing index with
  | nil =>
    constructor
    · intro h
      cases h
    · rintro ⟨d, hd⟩
      cases hd.place
  | cons d rest ih =>
    rw [latest?]
    cases hrest : latest? addr rest with
    | some found =>
      -- The rest has the last device, so the position moves up by one.
      obtain ⟨e, he⟩ := ih.1 hrest
      constructor
      · intro h
        obtain rfl := Option.some.inj h
        refine ⟨e, he.place, he.contains, fun later e' hlater hplace => ?_⟩
        obtain ⟨later, rfl⟩ : ∃ n, later = n + 1 := ⟨later - 1, by omega⟩
        exact he.last later e' (Nat.lt_of_succ_lt_succ hlater) hplace
      · rintro ⟨e', he'⟩
        cases index with
        | zero =>
          have hnot := he'.last (found + 1) e (Nat.succ_pos _) he.place
          rw [he.contains] at hnot
          cases hnot
        | succ index =>
          have hindex : latest? addr rest = some index :=
            ih.2 ⟨e', he'.place, he'.contains, fun later e'' hlater hplace =>
              he'.last (later + 1) e'' (Nat.succ_lt_succ hlater) hplace⟩
          rw [← hrest, hindex]
    | none =>
      -- No device of the rest contains the address, so it can only be the first one.
      have hnone := latest?_eq_none_iff.1 hrest
      constructor
      · intro h
        obtain ⟨hd, hzero⟩ := Option.ite_none_right_eq_some.1 h
        obtain rfl := Option.some.inj hzero
        refine ⟨d, rfl, hd, fun later e hlater hplace => ?_⟩
        obtain ⟨later, rfl⟩ : ∃ n, later = n + 1 := ⟨later - 1, by omega⟩
        exact hnone e (List.mem_of_getElem? hplace)
      · rintro ⟨e, he⟩
        cases index with
        | zero =>
          obtain rfl := Option.some.inj he.place
          exact if_pos he.contains
        | succ index =>
          have hnot := hnone e (List.mem_of_getElem? he.place)
          rw [he.contains] at hnot
          cases hnot

theorem latest?_concat (d : Device) :
    latest? addr (slots ++ [d]) =
      if d.contains addr then some slots.length else latest? addr slots := by
  induction slots with
  | nil => rfl
  | cons e rest ih =>
    rw [List.cons_append, latest?, ih, latest?]
    by_cases hd : d.contains addr = true
    · simp [hd]
    · simp [hd]

/-- Which device is the last one depends on the claims alone. -/
theorem latest?_congr {other : List Device}
    (h : slots.map Device.claimed = other.map Device.claimed) :
    latest? addr slots = latest? addr other := by
  induction slots generalizing other with
  | nil =>
    obtain rfl := List.map_eq_nil_iff.1 h.symm
    rfl
  | cons d rest ih =>
    cases other with
    | nil => cases h
    | cons e others =>
      obtain ⟨hhead, htail⟩ := List.cons.inj h
      rw [latest?, latest?, ih htail, Device.contains_congr hhead]

end Latest

/-! ## Histories -/

/-- A call in the history of a bus. -/
inductive RoutingCall where
  | map (d : Device)
  | access (call : BusCall)

namespace RoutingCall

/-- The device that a call maps. -/
def mapped? : RoutingCall → Option Device
  | .map d => some d
  | .access _ => none

end RoutingCall

/-- The devices after one more call. -/
def lineupAfter (slots : List Device) : RoutingCall → List Device
  | .map d => slots ++ [d]
  | .access call =>
      match latest? call.addr slots with
      | none => slots
      | some index => slots.modify index (Device.afterCall call)

/-- The devices after a history, in the order in which they were mapped. -/
def lineup (past : List RoutingCall) : List Device :=
  past.foldl lineupAfter []

/-- The devices as a history mapped them. -/
def mappings (past : List RoutingCall) : List Device :=
  past.filterMap RoutingCall.mapped?

theorem lineup_concat (past : List RoutingCall) (call : RoutingCall) :
    lineup (past ++ [call]) = lineupAfter (lineup past) call := by
  rw [lineup, List.foldl_append]
  rfl

/-- An access leaves the claims. -/
theorem claimed_lineupAfter_access (slots : List Device) (call : BusCall) :
    (lineupAfter slots (.access call)).map Device.claimed = slots.map Device.claimed := by
  rw [lineupAfter]
  cases latest? call.addr slots with
  | none => rfl
  | some index =>
    apply List.ext_getElem?
    intro i
    rw [List.getElem?_map, List.getElem?_map, List.getElem?_modify]
    cases slots[i]? with
    | none => rfl
    | some d =>
      by_cases hi : index = i
      · simp [hi]
      · simp [hi]

/-- The lineup has the claims of the devices that were mapped, in their order. -/
theorem claimed_lineup (past : List RoutingCall) :
    (lineup past).map Device.claimed = (mappings past).map Device.claimed := by
  induction past using List.reverseRecOn with
  | nil => rfl
  | append_singleton past call ih =>
    rw [lineup_concat, mappings, List.filterMap_append, List.map_append]
    cases call with
    | map d =>
      rw [lineupAfter, List.map_append, ih]
      rfl
    | access call =>
      rw [claimed_lineupAfter_access, ih]
      exact (List.append_nil _).symm

namespace MemoryBus

/-- The buses that a history leads to, from one without devices. -/
inductive Run : List RoutingCall → MemoryBus → Prop
  | start : Run [] empty
  | map {past : List RoutingCall} {bus later : MemoryBus} {d : Device} {index : Nat}
      (h : Run past bus) (hmap : bus.mapDevice d = .ok (index, later)) :
      Run (past ++ [.map d]) later
  | access {past : List RoutingCall} {bus : MemoryBus} (h : Run past bus) (call : BusCall) :
      Run (past ++ [.access call]) (bus.afterCall call)

/-! ## The table of owners follows the lineup -/

theorem mapDevice_eq_ok_iff {bus later : MemoryBus} {d : Device} {index : Nat} :
    bus.mapDevice d = .ok (index, later) ↔
      bus.refusal? d = none ∧ index = bus.devices.size ∧ later = bus.claim d := by
  rw [mapDevice]
  cases bus.refusal? d with
  | some error => simp
  | none => simp [eq_comm]

/-- A device is refused if its range is reversed or there is no room. -/
theorem refusal?_eq_none_iff {bus : MemoryBus} {d : Device} :
    bus.refusal? d = none ↔ d.first ≤ d.last ∧ bus.devices.size < capacity := by
  rw [refusal?]
  by_cases hrange : d.last < d.first
  · simp [hrange, UInt16.not_le.2 hrange]
  · by_cases hroom : capacity ≤ bus.devices.size
    · simp [hrange, hroom]
    · simp [hrange, hroom, UInt16.not_lt.1 hrange, Nat.not_le.1 hroom]

/-- A call changes the owner of its address. -/
theorem devices_afterCall (bus : MemoryBus) (call : BusCall) :
    (bus.afterCall call).devices.toList =
      match bus.owner? call.addr with
      | none => bus.devices.toList
      | some index => bus.devices.toList.modify index (Device.afterCall call) := by
  cases call with
  | read addr =>
    rw [afterCall, afterRead, modifyOwner, BusCall.addr]
    cases bus.owner? addr with
    | none => rfl
    | some index => exact Array.toList_modify ..
  | peek addr =>
    rw [afterCall, BusCall.addr]
    cases bus.owner? addr with
    | none => rfl
    | some index => exact (List.modify_id _ _).symm
  | write addr value =>
    rw [afterCall, write, modifyOwner, BusCall.addr]
    cases bus.owner? addr with
    | none => rfl
    | some index => exact Array.toList_modify ..

theorem owner?_afterCall (bus : MemoryBus) (call : BusCall) :
    (bus.afterCall call).owner? = bus.owner? := by
  cases call with
  | read addr => exact owner?_modifyOwner ..
  | peek addr => rfl
  | write addr value => exact owner?_modifyOwner ..

/-- A bus holds some devices, and the owner of each address is the last of them that contains it.
-/
structure Follows (slots : List Device) (bus : MemoryBus) : Prop where
  devices : bus.devices.toList = slots
  owner : ∀ addr, bus.owner? addr = latest? addr slots
  room : slots.length ≤ capacity

/-- After every history the bus follows the lineup. -/
theorem Run.follows {past : List RoutingCall} {bus : MemoryBus} (h : Run past bus) :
    bus.Follows (lineup past) := by
  induction h with
  | start => exact ⟨rfl, owner?_empty, Nat.zero_le _⟩
  | @map past bus later d index h hmap ih =>
    obtain ⟨hfree, -, rfl⟩ := mapDevice_eq_ok_iff.1 hmap
    obtain ⟨-, hroom⟩ := refusal?_eq_none_iff.1 hfree
    have hsize : bus.devices.size = (lineup past).length := by
      rw [← ih.devices, Array.length_toList]
    rw [lineup_concat, lineupAfter]
    refine ⟨?_, fun addr => ?_, ?_⟩
    · rw [devices_claim, Array.toList_push, ih.devices]
    · -- The new device owns its range, and all other addresses keep their owners.
      rw [owner?_claim, latest?_concat, ih.owner, hsize]
      simp [Device.contains]
    · rw [List.length_append, ← hsize]
      exact hroom
  | @access past bus h call ih =>
    have hclaims := claimed_lineupAfter_access (lineup past) call
    rw [lineup_concat]
    refine ⟨?_, fun addr => ?_, ?_⟩
    · rw [devices_afterCall, ih.owner, ih.devices, lineupAfter]
    · rw [owner?_afterCall, ih.owner]
      exact latest?_congr hclaims.symm
    · have hlength := congrArg List.length hclaims
      rw [List.length_map, List.length_map] at hlength
      rw [hlength]
      exact ih.room

/-! ## Accesses -/

/-- A bus passes the accesses to an address on to a device. -/
structure PassesOn (bus : MemoryBus) (addr : UInt16) (index : Nat) (d : Device) : Prop where
  name : bus.ownerName? addr = some d.name
  fault : ∀ slot, bus.fault? slot addr = d.fault? slot addr
  peek : ∀ slot, bus.peek slot addr = d.peek slot addr
  slot : ∀ slot value, bus.writeSlot addr value slot = d.writeSlot addr value slot
  devices : ∀ call : BusCall, call.addr = addr →
    (bus.afterCall call).devices.toList =
      bus.devices.toList.modify index (Device.afterCall call)

section Following

variable {slots : List Device} {bus : MemoryBus} {addr : UInt16}

/-- The last device that contains an address answers it. -/
theorem Follows.passesOn (h : bus.Follows slots) {index : Nat} {d : Device}
    (hlatest : IsLatest slots addr index d) : bus.PassesOn addr index d := by
  have howner : bus.owner? addr = some index := by
    rw [h.owner]
    exact latest?_eq_some_iff.2 ⟨d, hlatest⟩
  have hplace : bus.devices.toList[index]? = some d := by
    rw [h.devices]
    exact hlatest.place
  have hdevice : bus.device? addr = some d := by
    rw [device?, howner, Option.bind_some, ← Array.getElem?_toList]
    exact hplace
  refine ⟨?_, fun slot => ?_, fun slot => ?_, fun slot value => ?_, fun call hcall => ?_⟩
  · rw [ownerName?, hdevice]
    rfl
  · rw [MemoryBus.fault?, hdevice]
  · rw [MemoryBus.peek, hdevice]
    rfl
  · rw [writeSlot, hdevice]
  · rw [devices_afterCall, hcall, howner]

/-- No device is found where none contains the address. -/
theorem Follows.device?_eq_none_iff (h : bus.Follows slots) :
    bus.device? addr = none ↔ ∀ d ∈ slots, d.contains addr = false := by
  constructor
  · intro hnone
    rw [← latest?_eq_none_iff]
    cases hlatest : latest? addr slots with
    | none => rfl
    | some index =>
      obtain ⟨d, hd⟩ := latest?_eq_some_iff.1 hlatest
      have hname := (h.passesOn hd).name
      rw [ownerName?, hnone] at hname
      cases hname
  · intro hnone
    rw [device?, h.owner, latest?_eq_none_iff.2 hnone]
    rfl

end Following

end MemoryBus

/-- A device refuses no access for lack of an owner. -/
theorem Device.fault?_ne_unmapped (d : Device) (slot : Slot) (addr seen : UInt16) :
    d.fault? slot addr ≠ some (.unmapped seen) := by
  obtain ⟨name, first, last, body⟩ := d
  cases body with
  | memory | mirrored =>
    simp only [fault?]
    split <;> simp
  | latch => simp [fault?]
  | prgWindow | chrWindow =>
    cases slot with
    | none => simp [fault?]
    | some c =>
      simp only [fault?]
      split <;> simp

/-- An access fails for lack of an owner exactly where no device is found. -/
theorem MemoryBus.fault?_eq_unmapped_iff {bus : MemoryBus} {slot : Slot} {addr : UInt16} :
    bus.fault? slot addr = some (.unmapped addr) ↔ bus.device? addr = none := by
  rw [fault?]
  cases bus.device? addr with
  | none => simp
  | some d => simp [Device.fault?_ne_unmapped]

/-! ## Sessions -/

namespace Session

variable {m : Machine} {addr : UInt16} {fault : BusFault}

/-- Sessions end alike exactly if their results and their machines are the same. -/
theorem end_eq_iff {α : Type} {result other : Except MachineFault α} {later : Machine} :
    ((result, later) : Id (Except MachineFault α × Machine)) = (other, m) ↔
      result = other ∧ later = m :=
  Prod.mk.injEq .. ▸ Iff.rfl

/-- A read fails exactly if the board does not answer, and then nothing changes. -/
theorem read_eq_error_iff :
    read addr m = (.error (.bus fault), m) ↔ m.board.fault? addr = some fault := by
  cases hfault : m.board.fault? addr with
  | none =>
    simp only [read, drive, Program.readByte, Program.read_bind, Program.attempt, hfault]
    exact end_eq_iff.trans (by simp)
  | some other =>
    simp only [read, drive, Program.readByte, Program.read_bind, Program.attempt, hfault]
    exact end_eq_iff.trans (by simp)

theorem write_eq_error_iff {value : UInt8} :
    write addr value m = (.error (.bus fault), m) ↔ m.board.fault? addr = some fault := by
  cases hfault : m.board.fault? addr with
  | none =>
    simp only [write, drive, Program.writeByte, Program.write_bind, Program.attempt, hfault]
    exact end_eq_iff.trans (by simp)
  | some other =>
    simp only [write, drive, Program.writeByte, Program.write_bind, Program.attempt, hfault]
    exact end_eq_iff.trans (by simp)

theorem look_eq_error_iff :
    look [addr] m = (.error (.bus fault), m) ↔ m.board.fault? addr = some fault := by
  cases hfault : m.board.fault? addr with
  | none =>
    simp only [look, List.findSome?_cons, hfault]
    exact end_eq_iff.trans (by simp)
  | some other =>
    simp only [look, List.findSome?_cons, hfault]
    exact end_eq_iff.trans (by simp)

/-- Mapping a device in a session maps it on the bus of the board, or changes nothing. -/
theorem mapDevice_eq {bus : MemoryBus} (hbus : m.board.space = .mapped bus) (d : Device) :
    mapDevice (.ok d) m =
      match bus.mapDevice d with
      | .error error => (.error (.wiring error), m)
      | .ok (index, later) =>
          let events := m.board.events.appendList (bus.claimEvents d)
          (.ok index, { m with board := ⟨m.board.slot, .mapped later, events⟩ }) := by
  obtain ⟨cpu, ⟨slot, space, events⟩, picture, accesses⟩ := m
  obtain rfl : space = .mapped bus := hbus
  rw [mapDevice, MemoryBus.mapDevice]
  cases bus.refusal? d with
  | none => rfl
  | some error => rfl

end Session

namespace MemoryBus

/-- An access to an address fails for lack of an owner in a session on the bus, and then nothing
changes. -/
structure Fails (bus : MemoryBus) (addr : UInt16) (m : Machine) : Prop where
  read : Session.read addr m = (.error (.bus (.unmapped addr)), m)
  write : ∀ value, Session.write addr value m = (.error (.bus (.unmapped addr)), m)
  look : Session.look [addr] m = (.error (.bus (.unmapped addr)), m)

/-- What the next mapping does to a bus on which `count` devices were mapped. -/
structure MapsNext (bus : MemoryBus) (count : Nat) (d : Device) : Prop where
  /-- There are two reasons to refuse a device. -/
  refused_iff : (∃ error, bus.mapDevice d = .error error) ↔ d.last < d.first ∨ count = capacity
  /-- A refusal ends a session and changes nothing. -/
  refused : ∀ (m : Machine) (error : WiringError), m.board.space = .mapped bus →
    bus.mapDevice d = .error error → Session.mapDevice (.ok d) m = (.error (.wiring error), m)
  /-- A device takes the next position, and all that is stored stays as it is. -/
  mapped : ∀ (index : Nat) (later : MemoryBus), bus.mapDevice d = .ok (index, later) →
    index = count ∧ later.devices = bus.devices.push d ∧
      (∀ addr, bus.isMapped addr = true → later.isMapped addr = true) ∧
      ∀ addr, d.contains addr = false → later.device? addr = bus.device? addr

/-- What a bus does after a history. -/
structure RoutesToLatest (past : List RoutingCall) (bus : MemoryBus) : Prop where
  /-- The bus holds the devices of the lineup, with the claims under which they were mapped. -/
  devices : bus.devices.toList = lineup past
  claims : (lineup past).map Device.claimed = (mappings past).map Device.claimed
  /-- The last device that contains an address answers it. -/
  answered : ∀ addr index d, IsLatest (lineup past) addr index d → bus.PassesOn addr index d
  /-- An address has no owner exactly if no device was mapped over it. -/
  name_iff : ∀ addr, bus.ownerName? addr = none ↔ ∀ d ∈ mappings past, d.contains addr = false
  fails_iff : ∀ addr (m : Machine), m.board.space = .mapped bus →
    (bus.Fails addr m ↔ ∀ d ∈ mappings past, d.contains addr = false)
  maps : ∀ d, bus.MapsNext (mappings past).length d

section Results

variable {slots : List Device} {bus : MemoryBus}

/-- The access of a session fails exactly if no device is found. -/
theorem fails_iff_device? {addr : UInt16} {m : Machine} (hbus : m.board.space = .mapped bus) :
    bus.Fails addr m ↔ bus.device? addr = none := by
  have hfault : m.board.fault? addr = bus.fault? m.board.slot addr := by
    rw [Board.fault?, hbus]
  rw [← fault?_eq_unmapped_iff, ← hfault]
  constructor
  · intro h
    exact Session.read_eq_error_iff.1 h.read
  · intro h
    exact ⟨Session.read_eq_error_iff.2 h, fun value => Session.write_eq_error_iff.2 h,
      Session.look_eq_error_iff.2 h⟩

/-- The next mapping takes the next position, as long as there is one. -/
theorem Follows.mapsNext (h : bus.Follows slots) (d : Device) :
    bus.MapsNext slots.length d := by
  have hsize : bus.devices.size = slots.length := by
    rw [← h.devices, Array.length_toList]
  have hroom := h.room
  refine ⟨?_, fun m error hbus hrefused => ?_, fun index later hmap => ?_⟩
  · rw [mapDevice, refusal?, hsize]
    by_cases hrange : d.last < d.first
    · simp [hrange]
    · by_cases hfull : capacity ≤ slots.length
      · simp [hrange, Nat.le_antisymm hroom hfull]
      · have hcount : slots.length ≠ capacity := fun heq => hfull (Nat.le_of_eq heq.symm)
        simp [hrange, hfull, hcount]
  · rw [Session.mapDevice_eq hbus, hrefused]
  · obtain ⟨-, rfl, rfl⟩ := mapDevice_eq_ok_iff.1 hmap
    -- Owners are positions of the lineup, so all of them are below the next position.
    have hsound : bus.Sound := by
      intro addr owner howner
      rw [h.owner] at howner
      obtain ⟨e, he⟩ := latest?_eq_some_iff.1 howner
      rw [hsize]
      exact (List.getElem?_eq_some_iff.1 he.place).1
    refine ⟨hsize, rfl, fun addr hmapped => ?_, fun addr hout => ?_⟩
    · rw [isMapped, owner?_claim]
      split
      · rfl
      · exact hmapped
    · rw [← map_fst_answer?, ← map_fst_answer?, answer?_claim hsound, hout]
      rfl

end Results

/-- An address is in no range of the lineup exactly if no device was mapped over it. -/
theorem forall_contains_lineup (past : List RoutingCall) (addr : UInt16) :
    (∀ d ∈ lineup past, d.contains addr = false) ↔
      ∀ d ∈ mappings past, d.contains addr = false := by
  rw [← latest?_eq_none_iff, ← latest?_eq_none_iff, latest?_congr (claimed_lineup past)]

end MemoryBus

end NesMachine
