import Handheld.Word

/-!
# The 64 KiB memory image

`Memory` is one byte for each address.  It is kept as a `ByteArray` whose size is part of the type,
so that every address is in range and no access can fail.

Everything else sees a memory only through `Memory.read`: `read_write` says what a store does to it,
`read_ofFn` what a freshly built image holds, and `Memory.ext` that two images which read alike are
the same.  No proof outside this file opens the byte array.
-/

set_option autoImplicit false

namespace Handheld

/-- One byte for each of the 65536 addresses. -/
structure Memory where
  bytes : ByteArray
  size_bytes : bytes.size = UInt16.size

namespace Memory

private theorem inRange (m : Memory) (a : UInt16) : a.toNat < m.bytes.size := by
  rw [m.size_bytes]
  exact a.toNat_lt_size

/-- The byte at an address. -/
@[inline] def read (m : Memory) (a : UInt16) : UInt8 := m.bytes.get a.toNat (m.inRange a)

private theorem size_set (b : ByteArray) (i : Nat) (v : UInt8) (h : i < b.size) :
    (b.set i v h).size = b.size :=
  Array.size_set h

/-- The image with `v` stored at an address. -/
@[inline] def write (m : Memory) (a : UInt16) (v : UInt8) : Memory :=
  ⟨m.bytes.set a.toNat v (m.inRange a), by rw [size_set, m.size_bytes]⟩

/-- The image that holds `f a` at each address `a`. -/
def ofFn (f : UInt16 → UInt8) : Memory :=
  ⟨⟨Array.ofFn fun i : Fin UInt16.size ↦ f (UInt16.ofNat i)⟩, Array.size_ofFn⟩

/-- The image of zeros. -/
def zero : Memory := ofFn fun _ ↦ 0

/-- **A store changes one byte.** -/
theorem read_write (m : Memory) (a b : UInt16) (v : UInt8) :
    (m.write a v).read b = if b = a then v else m.read b := by
  by_cases h : b = a
  · rw [if_pos h, h]
    exact Array.getElem_set_self (m.inRange a)
  · rw [if_neg h]
    exact Array.getElem_set_ne (m.inRange a) (m.inRange b) fun e ↦ h (UInt16.toNat_inj.1 e).symm

@[simp] theorem read_write_self (m : Memory) (a : UInt16) (v : UInt8) :
    (m.write a v).read a = v := by
  simp [read_write]

theorem read_write_of_ne (m : Memory) {a b : UInt16} (v : UInt8) (h : b ≠ a) :
    (m.write a v).read b = m.read b := by
  simp [read_write, h]

private theorem get_ofFn {n : Nat} (f : Nat → UInt8) (i : Nat)
    (h : i < (Array.ofFn fun j : Fin n ↦ f j).size) :
    (ByteArray.mk (Array.ofFn fun j : Fin n ↦ f j)).get i h = f i :=
  Array.getElem_ofFn h

@[simp] theorem read_ofFn (f : UInt16 → UInt8) (a : UInt16) : (ofFn f).read a = f a := by
  rw [read, ofFn, get_ofFn fun i ↦ f (UInt16.ofNat i), UInt16.ofNat_toNat]

@[simp] theorem read_zero (a : UInt16) : zero.read a = 0 := read_ofFn _ a

/-- **An image is what it reads.** -/
@[ext] theorem ext {m n : Memory} (h : ∀ a, m.read a = n.read a) : m = n := by
  obtain ⟨x, hx⟩ := m
  obtain ⟨y, hy⟩ := n
  have e : x = y := by
    apply ByteArray.ext_getElem (by rw [hx, hy])
    intro i hi hi'
    have hlt : i < UInt16.size := hx ▸ hi
    have e : (UInt16.ofNat i).toNat = i := UInt16.toNat_ofNat_of_lt' hlt
    have hx' : (Memory.mk x hx).read (UInt16.ofNat i) = x[i] := getElem_congr_idx e
    have hy' : (Memory.mk y hy).read (UInt16.ofNat i) = y[i] := getElem_congr_idx e
    rw [← hx', ← hy', h]
  cases e
  rfl

end Memory
end Handheld
