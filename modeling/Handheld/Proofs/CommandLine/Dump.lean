import Handheld.CommandLine.Transcript
import Handheld.Proofs.CommandLine.Files
import Handheld.Proofs.CommandLine.Progress
import Handheld.Proofs.Machine.Idle
import Handheld.Proofs.Machine.Pictures
import Mathlib.Data.List.Induction

/-!
# The file of the frames

A run looks at the frame count after every tick, and when it has changed it keeps the picture that is
on the screen then.  That may be long after the picture was complete, and the machine has gone on in
the meantime.  But a tick is too short for the next picture to be begun, let alone completed
(`Machine.pictures_eq_of_short`).  So what is kept is each picture once, as it was when the picture
unit entered the vertical blank (`Run.Collects`).

`Transcript.dump_complete` follows the pictures to the file in which they are found when all is over.
-/

set_option autoImplicit false

namespace Handheld

/-! ## Pictures as bytes -/

namespace Screen

theorem size_shades (s : Screen) : s.shades.size = screenHeight * screenWidth := by
  simp only [shades, Array.size_flatMap, Vector.size_toArray]
  rw [Array.map_const', Array.sum_replicate_nat, Vector.size_toArray]

theorem size_foldl_push (bytes : List UInt8) (out : ByteArray) :
    (bytes.foldl ByteArray.push out).size = out.size + bytes.length := by
  induction bytes generalizing out with
  | nil => rfl
  | cons b bytes ih =>
    rw [List.foldl_cons, ih, ByteArray.size_push, List.length_cons, Nat.add_right_comm,
      Nat.add_assoc]

/-- **A picture has three bytes for each pixel.** -/
theorem size_toRgb24 (s : Screen) : s.toRgb24.size = 3 * (screenHeight * screenWidth) := by
  have hfold (shades : List Shade) (out : ByteArray) :
      (shades.foldl (fun out shade ↦ shade.color.rgb.foldl ByteArray.push out) out).size =
        out.size + 3 * shades.length := by
    induction shades generalizing out with
    | nil => rfl
    | cons shade shades ih =>
      have hthree : shade.color.rgb.length = 3 := rfl
      rw [List.foldl_cons, ih, size_foldl_push, hthree, List.length_cons]
      omega
  rw [toRgb24, ← Array.foldl_toList, hfold, Array.length_toList, size_shades]
  exact Nat.zero_add _

/-- Pictures one after the other. -/
def rgb24 (screens : List Screen) : ByteArray :=
  screens.foldl (fun bytes s ↦ bytes ++ s.toRgb24) ByteArray.empty

theorem rgb24_append_singleton (screens : List Screen) (s : Screen) :
    rgb24 (screens ++ [s]) = rgb24 screens ++ s.toRgb24 := by
  rw [rgb24, List.foldl_append]
  rfl

theorem size_rgb24 (screens : List Screen) : (rgb24 screens).size = 69120 * screens.length := by
  induction screens using List.reverseRecOn with
  | nil => rfl
  | append_singleton screens s ih =>
    rw [rgb24_append_singleton, ByteArray.size_append, ih, size_toRgb24, List.length_append,
      List.length_singleton, Nat.mul_succ]
    rfl

end Screen

/-! ## What a run collects -/

namespace Run

variable {o : Options} {m : Machine} {n : Nat} {r r' : Run}

/-- The run has kept the pictures that the machine has completed, no more than are wanted. -/
structure Collects (o : Options) (m : Machine) (r : Run) : Prop where
  pictures_eq : r.pictures =
    o.dump.map fun _ ↦ Screen.rgb24 (m.pictures r.emulator.debugger.history.count)
  framesDrawn_le : r.framesDrawn ≤ o.frames

theorem collects_start {journal : Journal} (h : start o m journal = .ok r) : r.Collects o m := by
  obtain ⟨debugger, hset, rfl⟩ := start_eq_ok h
  obtain ⟨-, -, hhistory⟩ := setBreakpoints_eq_ok hset
  have hnone : debugger.history.count = 0 := congrArg History.count hhistory
  refine ⟨?_, ?_⟩
  · dsimp only
    rw [hnone]
    rfl
  · rw [framesDrawn, Nat.sub_self]
    exact Nat.zero_le _

/-- In a tick at most one picture is completed, and it is on the screen at the end. -/
theorem Ticked.pictures (ht : Ticked o r r') (h : r.Follows o m n) (hm : m.scan.RunFor 0) :
    m.pictures r'.emulator.debugger.history.count =
      m.pictures r.emulator.debugger.history.count ++
        if r'.emulator.machine.ppu.frameCount = r.emulator.machine.ppu.frameCount then []
        else [r'.emulator.machine.ppu.screen] := by
  obtain ⟨total, ⟨⟨k, t, hk, htotal, hcount⟩, -, hlt, -, -⟩, -⟩ := ht.slice
  obtain ⟨before, hbefore, -⟩ := h.steps
  have hshort : t < 4810 := by
    have hle := o.cyclesPerTick_le
    omega
  rw [hcount, Machine.pictures_add hbefore,
    Machine.pictures_eq_of_short (Machine.runFor_steps hm hbefore) hk hshort]

/-- There are as many pictures as frames have been drawn. -/
theorem Follows.length_pictures (h : r.Follows o m n) (hm : m.scan.RunFor 0) :
    (m.pictures r.emulator.debugger.history.count).length = r.framesDrawn := by
  obtain ⟨total, hsteps, -⟩ := h.steps
  rw [framesDrawn, h.lastFrame_eq, h.firstFrame_eq, Machine.length_pictures hm hsteps,
    Nat.add_sub_cancel_left]

/-- **One tick.** -/
theorem Collects.tick (hc : r.Collects o m) (hm : m.scan.RunFor 0) (hgo : r.isOver = false)
    (h : r.Follows o m n) (ht : Ticked o r r') (h' : r'.Follows o m (n + 1)) :
    r'.Collects o m := by
  have hpictures := ht.pictures h hm
  have hfew := (isOver_eq_false_iff.1 hgo).2.2
  refine ⟨?_, ?_⟩
  · rw [ht.pictures_eq, hpictures, hc.pictures_eq, h.lastFrame_eq, h'.lastFrame_eq]
    split
    · rw [List.append_nil]
    · rw [Screen.rgb24_append_singleton, Option.map_map]
      rfl
  · rw [← h'.length_pictures hm, hpictures, List.length_append, h.length_pictures hm]
    rw [h.wanted_eq] at hfew
    split
    · exact Nat.le_of_lt hfew
    · exact hfew

/-- **As long as it is not over, a run collects the pictures.** -/
theorem collects_after {journal : Journal} (hm : m.scan.RunFor 0)
    (hstart : start o m journal = .ok r) (hgo : ∀ j < n, (r.after j).isOver = false)
    (hok : (r.after n).error = none) : (r.after n).Follows o m n ∧ (r.after n).Collects o m := by
  refine after_induction (P := fun n r ↦ r.Follows o m n ∧ r.Collects o m)
    ⟨follows_start hstart, collects_start hstart⟩ ?_ hgo hok
  rintro n r ⟨hfollows, hcollects⟩ hbefore hok
  obtain ⟨hticked, hnext⟩ := hfollows.tick hbefore hok
  exact ⟨hnext, hcollects.tick hm hbefore hfollows hticked hnext⟩

/-- **A run that is complete** has drawn the frames that are wanted, unless it has been stopped. -/
theorem complete_of_start {journal : Journal} (hm : m.scan.RunFor 0)
    (hstart : start o m journal = .ok r) (hslice : 0 < o.maxSliceMs)
    (hok : r.complete.error = none) :
    ∃ n, r.complete.Follows o m n ∧ r.complete.Collects o m ∧
      (r.complete.framesDrawn = o.frames ∨ r.complete.stopped = true) := by
  obtain ⟨n, -, hn⟩ := (follows_start hstart).exists_isOver hm hslice
  obtain ⟨n, hgo, hover, hcomplete⟩ := exists_complete_eq_after ⟨n, hn⟩
  rw [hcomplete] at hok ⊢
  obtain ⟨hfollows, hcollects⟩ := collects_after hm hstart hgo hok
  refine ⟨_, hfollows, hcollects, ?_⟩
  by_contra hno
  rw [not_or, Bool.not_eq_true] at hno
  obtain ⟨hfew, hgoesOn⟩ := hno
  have hlt := Nat.lt_of_le_of_ne hcollects.framesDrawn_le hfew
  rw [← hfollows.wanted_eq] at hlt
  rw [isOver_eq_false_iff.2 ⟨hgoesOn, hok, hlt⟩] at hover
  cases hover

/-- **A run does not fail if the machine never does.** -/
theorem complete_error {journal : Journal} (hm : m.scan.RunFor 0)
    (hstart : start o m journal = .ok r) (hslice : 0 < o.maxSliceMs)
    (hruns : ∀ k, ∃ total m', m.steps k = ⟨.ok total, m'⟩) : r.complete.error = none := by
  obtain ⟨n, -, hn⟩ := (follows_start hstart).exists_isOver hm hslice
  obtain ⟨n, hgo, -, hcomplete⟩ := exists_complete_eq_after ⟨n, hn⟩
  cases herror : r.complete.error with
  | none => rfl
  | some error =>
    rw [hcomplete] at herror
    obtain ⟨k, hk⟩ := (follows_start hstart).steps_of_error hgo herror
    obtain ⟨total, m', hsteps⟩ := hruns k
    rw [hsteps] at hk
    cases hk

end Run

/-! ## The file -/

theorem Images.machine_eq_ok {images : Images} {m : Machine} :
    images.machine = .ok m ↔ Machine.assemble images.boot images.rom = .ok m := by
  rw [machine]
  cases Machine.assemble images.boot images.rom <;> simp [Except.mapError]

/-- `bytes` are the pictures of a run that has begun with the machine `m` and is complete after `k`
steps. -/
structure Run.Recorded (o : Options) (m : Machine) (k : Nat) (r : Run) (bytes : ByteArray) :
    Prop where
  /-- They have all succeeded. -/
  steps : ∃ total, m.steps k = ⟨.ok total, r.emulator.machine⟩
  /-- The pictures are those that the machine has completed in these steps, in order, each as it was
  when the picture unit entered the vertical blank. -/
  bytes_eq : bytes = Screen.rgb24 (m.pictures k)
  /-- Each of them has three bytes for each pixel. -/
  size_eq : ∀ picture ∈ m.pictures k, picture.toRgb24.size = 69120
  length_le : (m.pictures k).length ≤ o.frames
  /-- There are as many as frames have been asked for, unless a breakpoint has been reached. -/
  length_eq : (m.pictures k).length = o.frames ∨
    r.stopped = true ∧ r.emulator.machine.cpu.regs.pc ∈ o.breakpoints

namespace Transcript

variable {o : Options} {files files' : Directory} {journal : Journal} {path : String}
  {images : Images} {m : Machine} {r : Run} {location : Option Location}

/-- What the options lead to, if nothing is to be listed and nothing fails: a machine, a run of it, and
a file for the pictures that it keeps. -/
theorem ofOptions_eq (hrun : o.disassemble = none) (hdump : o.dump = some path)
    (hok : (ofOptions o files journal).error = none) :
    ∃ images m r location files',
      Id.run (Images.load (m := Id) (fun path ↦ files.read path) o).run = .ok images ∧
        images.machine = .ok m ∧ Run.start o m (journal.noteAll images.events) = .ok r ∧
        files.create path = .ok (location, files') ∧ r.complete.error = none ∧
        (ofOptions o files journal).files =
          writeDump files' (some location) r.complete.pictures := by
  rw [ofOptions] at hok ⊢
  split at hok
  · cases hok
  rename_i images hload
  dsimp only at hok
  split at hok
  · cases hok
  rename_i m hmachine
  rw [ofMachine, hrun] at hok
  dsimp only at hok
  split at hok
  · cases hok
  rename_i r hstart
  rw [hdump, openDump] at hok
  split at hok
  · cases hok
  rename_i location? files' hopen
  split at hopen
  case h_2 => cases hopen
  rename_i location files'' hcreate
  cases hopen
  refine ⟨images, m, r, location, files', hload, hmachine, hstart, hcreate,
    Option.map_eq_none_iff.1 hok, ?_⟩
  simp only [ofMachine, hrun, hstart, hdump, openDump, hcreate]

/-- Nothing fails if the machine does not, and there is a file for its pictures. -/
theorem error_ofOptions (hrun : o.disassemble = none) (hslice : 0 < o.maxSliceMs)
    (hload : Id.run (Images.load (m := Id) (fun path ↦ files.read path) o).run = .ok images)
    (hmachine : images.machine = .ok m)
    (hstart : Run.start o m (journal.noteAll images.events) = .ok r)
    (hopen : openDump files o.dump = .ok (location, files'))
    (hsteps : ∀ k, ∃ total m', m.steps k = ⟨.ok total, m'⟩) :
    (ofOptions o files journal).error = none := by
  have hm := Machine.runFor_assemble (Images.machine_eq_ok.1 hmachine)
  rw [ofOptions, hload]
  simp only [hmachine, ofMachine, hrun, hstart, hopen]
  rw [Run.complete_error hm hstart hslice hsteps, Option.map_none]

/-- **The file of the frames is complete, and no picture in it is torn.**  Something is to be run, in
slices that have a length, and there is to be a file for the frames.  If nothing fails, the machine
has been put together and a run of it has come to its end; and what is in the file are the pictures
that the machine has completed from the moment it was switched on until the end of the run, each as
it was when the picture unit entered the vertical blank.  There are as many as frames have been asked
for, unless the run has stopped at a breakpoint before. -/
theorem dump_complete (hrun : o.disassemble = none) (hslice : 0 < o.maxSliceMs)
    (hdump : o.dump = some path) (hok : (ofOptions o files journal).error = none) :
    ∃ images m r k bytes,
      Id.run (Images.load (m := Id) (fun path ↦ files.read path) o).run = .ok images ∧
        images.machine = .ok m ∧ Run.start o m (journal.noteAll images.events) = .ok r ∧
        (ofOptions o files journal).files.read path = .ok bytes ∧
        r.complete.Recorded o m k bytes := by
  obtain ⟨images, m, r, location, files', hload, hmachine, hstart, hcreate, hrunOk, hfiles⟩ :=
    ofOptions_eq hrun hdump hok
  have hm := Machine.runFor_assemble (Images.machine_eq_ok.1 hmachine)
  obtain ⟨n, hfollows, hcollects, hends⟩ := Run.complete_of_start hm hstart hslice hrunOk
  obtain ⟨total, hsteps, -⟩ := hfollows.steps
  have hlength := hfollows.length_pictures hm
  refine ⟨images, m, r, r.complete.emulator.debugger.history.count, _, hload, hmachine, hstart,
    ?_, ⟨total, hsteps⟩, rfl, fun picture _ ↦ picture.size_toRgb24, ?_, ?_⟩
  · rw [hfiles, hcollects.pictures_eq, hdump]
    exact Directory.read_put_of_create hcreate _
  · rw [hlength]
    exact hcollects.framesDrawn_le
  · rw [hlength]
    refine hends.imp_right fun hstopped ↦ ⟨hstopped, ?_⟩
    rw [← hfollows.hasBreakpoint_iff]
    exact hfollows.waits (hfollows.stopped_eq ▸ hstopped)

/-- Options that ask for a listing and for a file of the frames. -/
def listedAndKept : Options :=
  { skipBoot := true, frames := 1, dump := some "out", disassemble := some 1 }

/-- **A listing leaves no file of the frames**, even if one is asked for. -/
theorem not_always_recorded :
    ¬∀ (o : Options) (files : Directory) (journal : Journal) (path : String),
      o.realtime = false → 0 < o.maxSliceMs → o.dump = some path →
        (ofOptions o files journal).error = none →
          ∃ images m r k bytes,
            Id.run (Images.load (m := Id) (fun path ↦ files.read path) o).run = .ok images ∧
              images.machine = .ok m ∧ Run.start o m (journal.noteAll images.events) = .ok r ∧
              (ofOptions o files journal).files.read path = .ok bytes ∧
              r.complete.Recorded o m k bytes := by
  intro h
  obtain ⟨images, m, r, k, bytes, -, -, -, hread, -⟩ :=
    h listedAndKept {} {} "out" rfl (by decide) rfl rfl
  have hnone : (ofOptions listedAndKept {} {}).files.read "out" = .error .notFound := rfl
  rw [hnone] at hread
  cases hread

/-- Options to draw one frame and keep it. -/
def oneFrameKept : Options := { frames := 1, dump := some "frames.rgb" }

/-- A directory with nothing in it but the boot program that sleeps. -/
def sleepFiles : Directory := .ofList [("dmg_boot.bin", Machine.sleepProgram.bytes)]

/-- A machine that sleeps draws a frame, and the file has the size of one picture. -/
theorem dump_complete_asleep :
    ∃ bytes, (ofOptions oneFrameKept sleepFiles {}).files.read "frames.rgb" = .ok bytes ∧
      bytes.size = 69120 := by
  obtain ⟨m, hm⟩ := Machine.exists_assemble_boot Machine.sleepProgram
  have hload : Id.run (Images.load (m := Id) (fun path ↦ sleepFiles.read path) oneFrameKept).run =
      .ok ⟨some Machine.sleepProgram.bytes, none⟩ := rfl
  have hok : (ofOptions oneFrameKept sleepFiles {}).error = none :=
    error_ofOptions rfl (by decide) hload (Images.machine_eq_ok.2 hm) rfl rfl
      (Machine.steps_of_sleepProgram hm)
  obtain ⟨images, m, r, k, bytes, -, -, -, hread, hrecorded⟩ :=
    dump_complete rfl (by decide) rfl hok
  have hone : (m.pictures k).length = 1 :=
    hrecorded.length_eq.resolve_right fun h ↦ List.not_mem_nil h.2
  exact ⟨bytes, hread, by rw [hrecorded.bytes_eq, Screen.size_rgb24, hone]⟩

end Transcript
end Handheld
