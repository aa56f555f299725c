import Mathlib.Data.List.Induction
import NesMachine.MemoryBus

/-!
# Who owns an address

A device that is mapped owns its range, and the other addresses keep their owners
(`MemoryBus.owner?_claim`). The devices mapped before keep their places, so what answers an address
outside the range stays the same (`MemoryBus.answer?_claim`). On a bus that is wired from a list of
devices the last one of the list that contains an address answers it (`MemoryBus.answer?_wired`).
-/

set_option autoImplicit false

namespace NesMachine

/-- A range has the addresses between its ends. -/
theorem mem_addressRange {first last addr : UInt16} :
    addr ∈ addressRange first last ↔ first ≤ addr ∧ addr ≤ last := by
  rw [addressRange, List.mem_map, UInt16.le_iff_toNat_le, UInt16.le_iff_toNat_le]
  constructor
  · rintro ⟨n, hn, rfl⟩
    rw [List.mem_range'_1] at hn
    have hle : n ≤ last.toNat := by omega
    have hvalue : (UInt16.ofNat n).toNat = n :=
      UInt16.toNat_ofNat_of_lt' (Nat.lt_of_le_of_lt hle last.toNat_lt_size)
    omega
  · rintro ⟨hfirst, hlast⟩
    exact ⟨addr.toNat, List.mem_range'_1.2 (by omega), UInt16.ofNat_toNat⟩

/-- A value set at some addresses is seen there and nowhere else. -/
theorem AddressTable.get_foldl_set {α : Type} (t : AddressTable α) (addrs : List UInt16) (value : α)
    (seen : UInt16) :
    (addrs.foldl (fun t addr => t.set addr value) t).get seen =
      if seen ∈ addrs then value else t.get seen := by
  induction addrs generalizing t with
  | nil => rfl
  | cons addr rest ih =>
    rw [List.foldl_cons, ih, AddressTable.get_set]
    by_cases hrest : seen ∈ rest
    · simp [hrest]
    · simp [hrest]

namespace MemoryBus

/-- A bus on which the owners are positions of devices. -/
def Sound (bus : MemoryBus) : Prop :=
  ∀ addr index, bus.owner? addr = some index → index < bus.devices.size

@[simp] theorem owner?_empty (addr : UInt16) : empty.owner? addr = none :=
  AddressTable.get_const none addr

theorem owner?_claim (bus : MemoryBus) (d : Device) (addr : UInt16) :
    (bus.claim d).owner? addr =
      if d.first ≤ addr ∧ addr ≤ d.last then some bus.devices.size else bus.owner? addr := by
  rw [owner?, claim, AddressTable.get_foldl_set]
  simp only [mem_addressRange]
  rfl

@[simp] theorem devices_claim (bus : MemoryBus) (d : Device) :
    (bus.claim d).devices = bus.devices.push d := rfl

theorem Sound.claim {bus : MemoryBus} (h : bus.Sound) (d : Device) : (bus.claim d).Sound := by
  intro addr index howner
  rw [devices_claim, Array.size_push]
  rw [owner?_claim] at howner
  split at howner
  · obtain rfl := Option.some.inj howner
    exact Nat.lt_succ_self _
  · exact Nat.lt_succ_of_lt (h addr index howner)

/-- The device that answers an address, with its position. -/
def answer? (bus : MemoryBus) (addr : UInt16) : Option (Device × Nat) :=
  (bus.owner? addr).bind fun index => bus.devices[index]?.map (·, index)

theorem map_fst_answer? (bus : MemoryBus) (addr : UInt16) :
    (bus.answer? addr).map Prod.fst = bus.device? addr := by
  simp [answer?, device?, Option.map_bind, Function.comp_def]

/-- A new device answers in its range, and elsewhere the same device as before does. -/
theorem answer?_claim {bus : MemoryBus} (h : bus.Sound) (d : Device) (addr : UInt16) :
    (bus.claim d).answer? addr =
      if d.contains addr then some (d, bus.devices.size) else bus.answer? addr := by
  have hrange : d.contains addr = true ↔ d.first ≤ addr ∧ addr ≤ d.last := by
    simp [Device.contains]
  rw [answer?, owner?_claim, if_congr hrange rfl rfl]
  split
  · rw [Option.bind_some, devices_claim, Array.getElem?_push_size]
    rfl
  · -- An owner from before is the position of a device from before, so it still finds that device.
    rw [answer?]
    cases howner : bus.owner? addr with
    | none => rfl
    | some index =>
      have hlt := h addr index howner
      simp [Array.getElem?_push, Nat.ne_of_lt hlt]

/-! ## Wired buses -/

/-- A bus with some devices mapped in their order. -/
def wired (devices : List Device) : MemoryBus :=
  devices.foldl claim empty

theorem wired_concat (devices : List Device) (d : Device) :
    wired (devices ++ [d]) = (wired devices).claim d := by
  rw [wired, List.foldl_append]
  rfl

/-- The devices of a wired bus are in the order in which they were mapped. -/
theorem devices_wired (devices : List Device) : (wired devices).devices = devices.toArray := by
  induction devices using List.reverseRecOn with
  | nil => rfl
  | append_singleton devices d ih => simp [wired_concat, ih]

theorem sound_wired (devices : List Device) : (wired devices).Sound := by
  induction devices using List.reverseRecOn with
  | nil =>
    intro addr index howner
    cases (owner?_empty addr).symm.trans howner
  | append_singleton devices d ih =>
    rw [wired_concat]
    exact ih.claim d

/-- The device that was mapped last among those that contain an address answers it. -/
theorem answer?_wired (devices : List Device) (addr : UInt16) :
    (wired devices).answer? addr = devices.zipIdx.reverse.find? (·.1.contains addr) := by
  induction devices using List.reverseRecOn with
  | nil =>
    rw [answer?, wired, List.foldl_nil, owner?_empty]
    rfl
  | append_singleton devices d ih =>
    rw [wired_concat, answer?_claim (sound_wired devices), ih, devices_wired]
    simp only [List.zipIdx_append, List.zipIdx_singleton, List.reverse_append,
      List.reverse_singleton, List.singleton_append, List.find?_cons, List.size_toArray,
      Nat.zero_add]
    cases d.contains addr <;> rfl

end MemoryBus

end NesMachine
