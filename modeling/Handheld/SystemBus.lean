import Handheld.Bus
import Handheld.Cpu.Interrupt
import Handheld.Error
import Handheld.IoRegister
import Handheld.Joypad

/-!
# The memory map

`SystemBus` is everything behind the address lines: the memory image, in which the cartridge, video
memory, work RAM and the I/O registers have their places; the boot ROM, while it is laid over the
first page; and the keys that are held down.

There are three ways to a byte.

* `SystemBus.read` and `SystemBus.write` are what the processor does.  The map decides: the
  cartridge cannot be written, work RAM is seen a second time at `0xE000`, the page above the sprite
  table is empty, and a store to some I/O registers has an effect beyond the byte.
* `SystemBus.peek` and the register accessors `get` and `set` are what the devices do.  They touch
  the image itself.
* `SystemBus.behind` and `SystemBus.replace` look through the overlay and the echo only.  They are
  for tools that inspect and patch a machine.
-/

set_option autoImplicit false

namespace Handheld

/-- The size of the cartridge window, and of the largest cartridge. -/
def romSize : Nat := 0x8000

/-- The size of the boot ROM, which covers the first page. -/
def bootRomSize : Nat := 0x100

/-- The boot program: a byte for each address of a page. -/
structure BootRom where
  bytes : ByteArray
  size_bytes : bytes.size = UInt8.size

namespace BootRom

/-- The byte at a place in the page. -/
def read (b : BootRom) (i : UInt8) : UInt8 :=
  b.bytes.get i.toNat (by rw [b.size_bytes]; exact i.toNat_lt_size)

/-- The boot program with one byte replaced. -/
def write (b : BootRom) (i v : UInt8) : BootRom where
  bytes := b.bytes.set i.toNat v (by rw [b.size_bytes]; exact i.toNat_lt_size)
  size_bytes := (Array.size_set _).trans b.size_bytes

end BootRom

/-- The memory image, the boot ROM while it is mapped, and the keys held down. -/
structure SystemBus where
  memory : Memory
  /-- The boot ROM over the first page; none once it has been switched off. -/
  bootRom : Option BootRom
  /-- The direction keys held down. -/
  directions : KeyMask := 0
  /-- The buttons held down. -/
  buttons : KeyMask := 0
  /-- The divider has been written since the timer last ran. -/
  dividerReset : Bool := false

namespace SystemBus

/-! ## The image and the registers -/

/-- A byte of the image. -/
@[inline] def peek (bus : SystemBus) (a : UInt16) : UInt8 := bus.memory.read a

/-- The bus with a byte of the image replaced. -/
@[inline] def poke (bus : SystemBus) (a : UInt16) (v : UInt8) : SystemBus :=
  { bus with memory := bus.memory.write a v }

/-- The value of an I/O register. -/
@[inline] def get (bus : SystemBus) (r : IoRegister) : UInt8 := bus.peek r.address

/-- The bus with an I/O register set, and nothing else done. -/
@[inline] def set (bus : SystemBus) (r : IoRegister) (v : UInt8) : SystemBus := bus.poke r.address v

/-- The bus with an interrupt requested. -/
def request (bus : SystemBus) (source : Interrupt) : SystemBus :=
  bus.set .interruptFlag (bus.get .interruptFlag ||| source.mask)

/-- Whether the boot ROM covers the first page. -/
@[inline] def bootRomMapped (bus : SystemBus) : Bool := bus.bootRom.isSome

/-! ## Keys -/

/-- Recomputes the joypad register: the selection as it stands, and the lines of the selected
groups, a group being selected by a zero. -/
def refreshJoypad (bus : SystemBus) : SystemBus :=
  let selection := bus.get .joypad &&& 0x30
  let directions := if selection &&& 0x10 = 0 then bus.directions.lines else 0x0F
  let buttons := if selection &&& 0x20 = 0 then bus.buttons.lines else 0x0F
  bus.set .joypad (0xC0 ||| selection ||| (directions &&& buttons))

/-- The keys of a group that are held down. -/
def held (bus : SystemBus) : KeyGroup → KeyMask
  | .directions => bus.directions
  | .buttons => bus.buttons

/-- The bus with the held keys of a group changed. -/
def setHeld (bus : SystemBus) (group : KeyGroup) (keys : KeyMask) : SystemBus :=
  match group with
  | .directions => { bus with directions := keys }
  | .buttons => { bus with buttons := keys }

/-- Takes a key event.  Pressing a key that was not held asks for an interrupt. -/
def applyKeys (bus : SystemBus) (event : InputEvent) : SystemBus :=
  let held := bus.held event.group
  let bus := if event.pressed && !held.covers event.keys then bus.request .joypad else bus
  (bus.setHeld event.group (held.update event.keys event.pressed)).refreshJoypad

/-! ## The overlay and the echo -/

/-- Where an address leads: work RAM appears a second time, `0x2000` higher up. -/
@[inline] def unecho (a : UInt16) : UInt16 := if 0xE000 ≤ a ∧ a ≤ 0xFDFF then a - 0x2000 else a

/-- The byte behind an address, through the boot ROM and the echo. -/
@[inline] def behind (bus : SystemBus) (a : UInt16) : UInt8 :=
  match bus.bootRom with
  | some boot => if a < 0x100 then boot.read a.toUInt8 else bus.peek (unecho a)
  | none => bus.peek (unecho a)

/-- The bus with the byte behind an address replaced. -/
@[inline] def replace (bus : SystemBus) (a : UInt16) (v : UInt8) : SystemBus :=
  match bus.bootRom with
  | some boot =>
    if a < 0x100 then { bus with bootRom := some (boot.write a.toUInt8 v) }
    else bus.poke (unecho a) v
  | none => bus.poke (unecho a) v

/-! ## What the processor reads and stores -/

/-- The page above the sprite table, where nothing answers. -/
@[inline] def isUnused (a : UInt16) : Bool := 0xFEA0 ≤ a && a ≤ 0xFEFF

/-- What the processor reads. -/
@[inline] def read (bus : SystemBus) (a : UInt16) : UInt8 :=
  if isUnused a then 0xFF
  else if a = IoRegister.interruptFlag.address then bus.peek a ||| 0xE0
  else bus.behind a

/-- The first address of the sprite table. -/
def spriteTable : UInt16 := 0xFE00

/-- The number of bytes in the sprite table. -/
def spriteTableSize : Nat := 160

/-- Copies the first `n` bytes of a page to the sprite table, one after another. -/
def copySprites (bus : SystemBus) (page : UInt8) : Nat → SystemBus
  | 0 => bus
  | n + 1 =>
    let bus := bus.copySprites page n
    bus.poke (spriteTable + UInt16.ofNat n) (bus.read (Word.ofBytes page 0 + UInt16.ofNat n))

/-- What a store of the processor does. -/
def write (bus : SystemBus) (a : UInt16) (v : UInt8) : SystemBus :=
  if a < 0x8000 || isUnused a then bus
  else if a = IoRegister.joypad.address then (bus.poke a v).refreshJoypad
  else if a = IoRegister.divider.address then { bus.poke a 0 with dividerReset := true }
  else if a = IoRegister.interruptFlag.address then bus.poke a (v &&& 0x1F)
  else if a = IoRegister.spriteTransfer.address then
    (bus.poke a v).copySprites v spriteTableSize
  else if a = IoRegister.bootOff.address then
    let bus := bus.poke a v
    if v = 0 then bus else { bus with bootRom := none }
  else bus.replace a v

instance : Bus SystemBus := ⟨SystemBus.read, SystemBus.write⟩

/-! ## Switching on -/

/-- The image with a cartridge in its window: what the cartridge does not fill reads `0xFF`, the
rest of memory zero. -/
def image (rom : ByteArray) : Memory :=
  Memory.ofFn fun a ↦
    if h : a.toNat < rom.size then rom[a.toNat] else if a < 0x8000 then 0xFF else 0

/-- The boot ROM in a file, which has to have the right size. -/
def bootRomOf : Option ByteArray → Except MachineError (Option BootRom)
  | none => .ok none
  | some bytes =>
    if h : bytes.size = UInt8.size then .ok (some ⟨bytes, h⟩)
    else .error (.invalidBootRomSize bytes.size)

/-- The bus as it is when the machine is switched on, from a boot ROM and a cartridge.  Without a
boot ROM it counts as switched off already. -/
def new (boot rom : Option ByteArray) : Except MachineError SystemBus := do
  let bootRom ← bootRomOf boot
  let rom := rom.getD ByteArray.empty
  if rom.size > romSize then throw (.romTooLarge rom.size)
  let bus : SystemBus := { memory := image rom, bootRom }
  let bus := IoRegister.all.foldl (fun bus r ↦ bus.set r r.initial) bus
  return if bootRom.isSome then bus else bus.set .bootOff 1

end SystemBus
end Handheld
