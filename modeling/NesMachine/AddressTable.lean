/-!
# Tables over the address space

A value for each of the 65536 addresses. Setting the value of an address is seen there and nowhere
else (`get_set`).
-/

set_option autoImplicit false

namespace NesMachine

/-- One value for every address. -/
structure AddressTable (α : Type) where
  cells : Vector α UInt16.size

namespace AddressTable

variable {α : Type}

/-- The table that has one value everywhere. -/
def const (value : α) : AddressTable α :=
  ⟨Vector.replicate UInt16.size value⟩

/-- The value of an address. -/
def get (t : AddressTable α) (addr : UInt16) : α :=
  t.cells[addr.toFin]

/-- The table with the value of one address replaced. -/
def set (t : AddressTable α) (addr : UInt16) (value : α) : AddressTable α :=
  ⟨t.cells.set addr.toNat value addr.toNat_lt_size⟩

/-- Whether all values pass a test. -/
def all (t : AddressTable α) (test : α → Bool) : Bool :=
  t.cells.all test

@[simp] theorem get_const (value : α) (addr : UInt16) : (const value).get addr = value := by
  simp [get, const]

theorem get_set (t : AddressTable α) (addr seen : UInt16) (value : α) :
    (t.set addr value).get seen = if seen = addr then value else t.get seen := by
  by_cases h : seen = addr
  · simp [get, set, h]
  · have hne : addr.toNat ≠ seen.toNat := fun e => h (UInt16.toNat_inj.1 e.symm)
    simp [get, set, h, hne]

end AddressTable

end NesMachine
