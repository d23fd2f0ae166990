import Handheld.Proofs.Machine.PowerOn

/-!
# The joypad register along a history

Three things touch the joypad register: direction keys and buttons, pressed or released, and stores
of a program, which select groups.  Each of them has the register computed anew, from the selection
as it stands in the register itself and from the keys held down.  So after any number of them, in
any order, the register is a function of two things: what was stored last, and which keys are down
(`SystemBus.joypad_of_history`).

Neither of them is read off the bus here.  `JoypadAct.lastStored` and `JoypadAct.heldAfter` are
computed from the history alone, and `SystemBus.ShowsHistory` says that a bus agrees with them.  One
act preserves that (`ShowsHistory.joypadAct`), so a history does (`ShowsHistory.joypadActs`).

The request for an interrupt is decided by the same sets: it is made by a press with a key that was
not down, and nothing else in the request byte changes (`get_interruptFlag_joypadAct`).
-/

set_option autoImplicit false

namespace Handheld

/-- Something that touches the joypad register. -/
inductive JoypadAct where
  /-- Keys are pressed or released. -/
  | keys (event : InputEvent)
  /-- A program stores to the register. -/
  | store (v : UInt8)

/-! ## Histories -/

namespace JoypadAct

/-- What was stored to the register last, zero at first. -/
def lastStored (history : List JoypadAct) : UInt8 :=
  history.foldl
    (fun last act ↦
      match act with
      | keys _ => last
      | store v => v)
    0

/-- The keys of a group that are down: none at first, then with the pressed ones added and the
released ones taken away. -/
def heldAfter (history : List JoypadAct) (group : KeyGroup) : KeyMask :=
  history.foldl
    (fun held act ↦
      match act with
      | keys e =>
        if e.group = group then if e.pressed then held ||| e.keys else held &&& ~~~e.keys else held
      | store _ => held)
    0

/-- Keys are pressed, and one of them was not down. -/
def PressesNew (held : KeyGroup → KeyMask) : JoypadAct → Prop
  | keys e => e.pressed = true ∧
      ∃ k < 4, e.keys.getLsbD k = true ∧ (held e.group).getLsbD k = false
  | store _ => False

instance (held : KeyGroup → KeyMask) (act : JoypadAct) : Decidable (act.PressesNew held) :=
  match act with
  | keys _ => inferInstanceAs (Decidable (_ ∧ _))
  | store _ => inferInstanceAs (Decidable False)

theorem lastStored_append (history : List JoypadAct) (act : JoypadAct) :
    lastStored (history ++ [act]) =
      match act with
      | keys _ => lastStored history
      | store v => v :=
  List.foldl_append

theorem heldAfter_append_keys (history : List JoypadAct) (e : InputEvent) (group : KeyGroup) :
    heldAfter (history ++ [keys e]) group =
      if e.group = group then (heldAfter history group).update e.keys e.pressed
      else heldAfter history group :=
  List.foldl_append

theorem heldAfter_append_store (history : List JoypadAct) (v : UInt8) (group : KeyGroup) :
    heldAfter (history ++ [store v]) group = heldAfter history group :=
  List.foldl_append

end JoypadAct

/-- A key is asked for that is not held. -/
theorem KeyMask.covers_eq_false_iff (held keys : KeyMask) :
    held.covers keys = false ↔ ∃ k < 4, keys.getLsbD k = true ∧ held.getLsbD k = false := by
  revert held keys
  decide +kernel

/-- The lines of the keys: all high, but for the keys that are down in a group selected by a
zero. -/
def inputLines (selection : UInt8) (held : KeyGroup → KeyMask) : UInt8 :=
  let directions : KeyMask := if selection.toNat.testBit 4 then 0 else held .directions
  let buttons : KeyMask := if selection.toNat.testBit 5 then 0 else held .buttons
  0x0F &&& ~~~UInt8.ofNat (directions ||| buttons).toNat

/-- The joypad register, from the selection and the keys that are down. -/
def joypadByte (selection : UInt8) (held : KeyGroup → KeyMask) : UInt8 :=
  0xC0 ||| (selection &&& 0x30) ||| inputLines selection held

/-- The register keeps the selection. -/
theorem joypadByte_and (selection : UInt8) (held : KeyGroup → KeyMask) :
    joypadByte selection held &&& 0x30 = selection &&& 0x30 := by
  have hlines : ∀ keys : UInt8, 0x0F &&& ~~~keys &&& 0x30 = 0 := by decide +kernel
  have hselection : ∀ selection : UInt8, (0xC0 ||| (selection &&& 0x30)) &&& 0x30 =
      selection &&& 0x30 := by decide +kernel
  have hdistrib (a b c : UInt8) : (a ||| b) &&& c = a &&& c ||| b &&& c :=
    UInt8.toBitVec_inj.1 BitVec.and_or_distrib_right
  rw [joypadByte, hdistrib, hselection, inputLines, hlines, UInt8.or_zero]

namespace SystemBus

open JoypadAct

variable {bus : SystemBus} {history : List JoypadAct}

/-- The bus after an act. -/
def joypadAct (bus : SystemBus) : JoypadAct → SystemBus
  | .keys event => bus.applyKeys event
  | .store v => bus.write IoRegister.joypad.address v

/-- The bus after a history. -/
def joypadActs (bus : SystemBus) (history : List JoypadAct) : SystemBus :=
  history.foldl joypadAct bus

/-- A bus shows what a history has left. -/
structure ShowsHistory (bus : SystemBus) (history : List JoypadAct) : Prop where
  joypad_eq : bus.get .joypad = joypadByte (lastStored history) (heldAfter history)
  held_eq : bus.held = heldAfter history

/-! ## One act -/

/-- Computed anew, the register is made from the selection in it and the keys held down. -/
theorem get_refreshJoypad {selection : UInt8}
    (h : bus.get .joypad &&& 0x30 = selection &&& 0x30) :
    bus.refreshJoypad.get .joypad = joypadByte selection bus.held := by
  have hselected : ∀ v : UInt8,
      (v &&& 0x30 &&& 0x10 = 0 ↔ ¬v.toNat.testBit 4) ∧
        (v &&& 0x30 &&& 0x20 = 0 ↔ ¬v.toNat.testBit 5) := by
    decide +kernel
  have hlines : ∀ (off off' : Bool) (directions buttons : KeyMask),
      (if ¬off then directions.lines else 0x0F) &&& (if ¬off' then buttons.lines else 0x0F) =
        0x0F &&& ~~~UInt8.ofNat
          ((if off then 0 else directions) ||| (if off' then 0 else buttons)).toNat := by
    decide +kernel
  rw [refreshJoypad, get_set_self, h, joypadByte, inputLines]
  simp only [(hselected selection).1, (hselected selection).2, hlines]
  rfl

theorem refreshJoypad_held (bus : SystemBus) : bus.refreshJoypad.held = bus.held := rfl

theorem held_setHeld (bus : SystemBus) (group : KeyGroup) (keys : KeyMask) (other : KeyGroup) :
    (bus.setHeld group keys).held other = if group = other then keys else bus.held other := by
  cases group <;> cases other <;> rfl

theorem get_setHeld (bus : SystemBus) (group : KeyGroup) (keys : KeyMask) (r : IoRegister) :
    (bus.setHeld group keys).get r = bus.get r := by
  cases group <;> rfl

/-- **An act shows in the register and in the keys held down.** -/
theorem ShowsHistory.joypadAct (h : bus.ShowsHistory history) (act : JoypadAct) :
    (bus.joypadAct act).ShowsHistory (history ++ [act]) := by
  have hselection : bus.get .joypad &&& 0x30 = lastStored history &&& 0x30 := by
    rw [h.joypad_eq, joypadByte_and]
  cases act with
  | keys e =>
    -- the request, if there is one, is in another register, and the keys are not in the image
    have hjoypad : ((if e.pressed && !(bus.held e.group).covers e.keys then bus.request .joypad
        else bus).setHeld e.group ((bus.held e.group).update e.keys e.pressed)).get .joypad =
          bus.get .joypad := by
      rw [get_setHeld]
      split
      · exact get_request_of_ne bus .joypad (by decide)
      · rfl
    have hheld : (bus.applyKeys e).held = heldAfter (history ++ [.keys e]) := by
      funext group
      rw [heldAfter_append_keys, ← h.held_eq, applyKeys, refreshJoypad_held, held_setHeld]
      split
      · rename_i heq
        rw [heq]
      · split <;> rfl
    refine ⟨?_, hheld⟩
    rw [lastStored_append, ← hheld]
    exact get_refreshJoypad (by rw [hjoypad, hselection])
  | store v =>
    have hheld : (bus.joypadAct (.store v)).held = heldAfter (history ++ [.store v]) := by
      funext group
      rw [heldAfter_append_store, ← h.held_eq]
      rfl
    refine ⟨?_, hheld⟩
    rw [lastStored_append, ← hheld]
    exact get_refreshJoypad (congrArg (· &&& 0x30) (get_set_self bus .joypad v))

/-- **What an act does to the request byte.** -/
theorem get_interruptFlag_joypadAct (bus : SystemBus) (act : JoypadAct) :
    (bus.joypadAct act).get .interruptFlag =
      bus.get .interruptFlag ||| if act.PressesNew bus.held then 0x10 else 0 := by
  cases act with
  | keys e =>
    have hnew : (e.pressed && !(bus.held e.group).covers e.keys) = true ↔
        (JoypadAct.keys e).PressesNew bus.held := by
      rw [Bool.and_eq_true, Bool.not_eq_true', KeyMask.covers_eq_false_iff]
      rfl
    rw [joypadAct, applyKeys, refreshJoypad, get_set_of_ne _ _ (by decide), get_setHeld]
    by_cases hpress : (JoypadAct.keys e).PressesNew bus.held
    · rw [if_pos hpress, if_pos (hnew.2 hpress)]
      exact get_interruptFlag_request bus .joypad
    · rw [if_neg hpress, if_neg (mt hnew.1 hpress), UInt8.or_zero]
  | store v =>
    have hno : ¬(JoypadAct.store v).PressesNew bus.held := id
    rw [if_neg hno, UInt8.or_zero]
    exact get_write_of_ne bus v (by decide)

/-! ## All of them -/

theorem ShowsHistory.joypadActs {past : List JoypadAct} (h : bus.ShowsHistory past)
    (history : List JoypadAct) : (bus.joypadActs history).ShowsHistory (past ++ history) := by
  induction history generalizing bus past with
  | nil =>
    rw [List.append_nil]
    exact h
  | cons act history ih =>
    rw [List.append_cons]
    exact ih (h.joypadAct act)

theorem held_foldl_initial (registers : List IoRegister) (bus : SystemBus) :
    (registers.foldl (fun bus r ↦ bus.set r r.initial) bus).held = bus.held := by
  induction registers generalizing bus with
  | nil => rfl
  | cons r registers ih => exact ih (bus.set r r.initial)

/-- Switched on, a bus has no keys down. -/
theorem held_of_new {boot rom : Option ByteArray} (h : new boot rom = .ok bus) :
    bus.held = fun _ ↦ 0 := by
  obtain ⟨bootRom, -, bus₀, hbus₀, hbus⟩ := new_eq_ok h
  have hinitial : bus₀.held = fun _ ↦ 0 := by
    rw [hbus₀, held_foldl_initial]
    funext group
    cases group <;> rfl
  rcases hbus with rfl | rfl
  · exact hinitial
  · exact hinitial

theorem showsHistory_of_new {boot rom : Option ByteArray} (h : new boot rom = .ok bus) :
    bus.ShowsHistory [] := by
  refine ⟨?_, (held_of_new h).trans ?_⟩
  · rw [(switchedOn_of_new h).get_eq .joypad (by decide)]
    decide
  · rfl

/-- **The joypad register follows the history.**  From a bus that has just been switched on, let
keys be pressed and released and the register be stored to, in any order.  Then the register shows
the selection that was stored last, zero at first, with two ones above it; and below it four lines,
all high but for those of the keys that are down in a selected group.  The next act requests the
joypad interrupt exactly if it presses a key that is not down, and changes no other bit of the
request byte. -/
theorem joypad_of_history {boot rom : Option ByteArray} {start : SystemBus}
    (h : new boot rom = .ok start) (history : List JoypadAct) :
    (start.joypadActs history).get .joypad =
        0xC0 ||| (lastStored history &&& 0x30) |||
          inputLines (lastStored history) (heldAfter history) ∧
      (start.joypadActs history).read IoRegister.joypad.address =
        (start.joypadActs history).get .joypad ∧
      ∀ act : JoypadAct, ((start.joypadActs history).joypadAct act).get .interruptFlag =
        (start.joypadActs history).get .interruptFlag |||
          if act.PressesNew (heldAfter history) then 0x10 else 0 := by
  have hshows : (start.joypadActs history).ShowsHistory history :=
    (showsHistory_of_new h).joypadActs history
  refine ⟨hshows.joypad_eq, read_of_le _ (by decide) (by decide), fun act ↦ ?_⟩
  rw [get_interruptFlag_joypadAct, hshows.held_eq]

/-- Right and left are pressed with the buttons, and right is released, while the directions are
selected: of the lines that of left is low.  To press left again requests nothing; to press right
and left does, since right is up. -/
theorem joypad_of_history_leftHeld :
    ∃ start, new none none = .ok start ∧
      ∃ history : List JoypadAct,
        history = [.keys ⟨.directions, 3, true⟩, .keys ⟨.buttons, 8, true⟩, .store 0x20,
          .keys ⟨.directions, 1, false⟩] ∧
        (start.joypadActs history).get .joypad = 0xED ∧
        ((start.joypadActs history).joypadAct (.keys ⟨.directions, 2, true⟩)).get .interruptFlag =
          (start.joypadActs history).get .interruptFlag ∧
        ((start.joypadActs history).joypadAct (.keys ⟨.directions, 3, true⟩)).get .interruptFlag =
          (start.joypadActs history).get .interruptFlag ||| 0x10 := by
  obtain ⟨start, hstart⟩ : ∃ start, new none none = .ok start := ⟨_, rfl⟩
  obtain ⟨hjoypad, -, hrequest⟩ := joypad_of_history hstart
    [.keys ⟨.directions, 3, true⟩, .keys ⟨.buttons, 8, true⟩, .store 0x20,
      .keys ⟨.directions, 1, false⟩]
  refine ⟨start, hstart, _, rfl, hjoypad.trans (by decide), ?_, ?_⟩
  · rw [hrequest, if_neg (by decide), UInt8.or_zero]
  · rw [hrequest, if_pos (by decide)]

end SystemBus
end Handheld
