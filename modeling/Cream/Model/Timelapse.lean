import Cream.Library.Text
import Mathlib

/-!
# Rendering a timelapse

`Timelapse.render` in `timelapse.py`, with the files of the frame directory. It waits for
another component once, when it asks for the name of the printed file; from there to the end of
the cleanup it is one straight line. What the rest of the world does to it is `RenderEnv`: the
answer to the query, with the frames and the counter as they are by then, the faults of the file
operations, and the result of the first request for an encoding. The second request, for the
preview image, decides nothing: its exceptions are caught and its result is not looked at. The
video and the preview image are no frame files.

SOURCE: timelapse.py:582-782
-/

set_option autoImplicit false

namespace Cream.Model

open Cream.Library

/-- The files of the frame directory. -/
abbrev Files (C : Type) := AList fun _ : Text => C

/-- The names `glob.glob` finds for `frame*.jpg`. -/
def isFrame (name : Text) : Bool :=
  "frame".toList.isPrefixOf name && ".jpg".toList.isSuffixOf name && 9 ≤ name.length

/-- `str.zfill`. -/
def zfill (width : Nat) (s : Text) : Text := List.replicate (width - s.length) '0' ++ s

def frameName (n : Nat) : Text :=
  "frame".toList ++ zfill 6 (Nat.toDigits 10 n) ++ ".jpg".toList

/-- What the first request comes to. -/
inductive EncodeOutcome where
  /-- an exception before `cmdstatus` is assigned -/
  | raises
  /-- `cmdstatus`, which may be empty -/
  | response (empty : Bool)
deriving DecidableEq, Repr

/-- How `render` ends. -/
inductive RenderStatus where
  | skipped
  | running
  | success
  | error
  | raised
deriving DecidableEq, Repr

/-- The entries of `self.config` that decide what happens to the frames. -/
structure TimelapseConfig where
  duplicatelastframe : Int
  variableFps : Bool
  targetlength : Int
  previewimage : Bool

structure RenderEnv (C : Type) where
  /-- the frames and the counter when the query is answered; `none` when it raises -/
  queryObjects : Option (Files C × Nat)
  /-- an `OSError` in a call of `shutil.copy`, with what it leaves in the file if it got to
  open it -/
  copyFault : Nat → Option (Option C)
  encode : EncodeOutcome
  /-- an `OSError` in a call of `os.remove` -/
  removeFault : Nat → Bool

structure Timelapse (C : Type) where
  renderisrunning : Bool
  framecount : Nat
  files : Files C

namespace Timelapse

variable {C : Type}

/-- `sorted(glob.glob(temp_dir + "frame*.jpg"))`. -/
def filelist (files : Files C) : List Text :=
  (files.keys.filter isFrame).insertionSort fun a b => a ≤ b

/-- What a call of `shutil.copy` writes, if anything. A file is not copied onto itself. -/
def written (files : Files C) (src dst : Text) (fault : Option (Option C)) : Option C :=
  if dst = src then none
  else (files.lookup src).bind fun content => fault.getD (some content)

def copy (files : Files C) (src dst : Text) (fault : Option (Option C)) : Files C :=
  match written files src dst fault with
  | none => files
  | some content => files.insert dst content

/-- The loop that copies the last frame, from a turn on. -/
def duplicate (lastframe : Text) (copyFault : Nat → Option (Option C)) :
    Nat → List Text → Files C → Files C
  | _, [], files => files
  | i, d :: ds, files => duplicate lastframe copyFault (i + 1) ds (copy files lastframe d (copyFault i))

/-- The loop that removes the duplicates, from a turn on. -/
def cleanup (removeFault : Nat → Bool) : Nat → List Text → Files C → Files C
  | _, [], files => files
  | i, d :: ds, files =>
    cleanup removeFault (i + 1) ds (if removeFault i then files else files.erase d)

/-- The list `duplicates`. -/
def duplicates (config : TimelapseConfig) (framecount : Nat) : List Text :=
  (List.range config.duplicatelastframe.toNat).map fun i => frameName (framecount + i + 1)

/-- `render`. -/
def render (config : TimelapseConfig) (env : RenderEnv C) (s : Timelapse C) :
    RenderStatus × Timelapse C :=
  let files₀ := filelist s.files
  let s := { s with framecount := files₀.length }
  match files₀.getLast? with
  | none => (.skipped, s)
  | some lastframe =>
    if s.renderisrunning then (.running, s)
    else
      let s := { s with renderisrunning := true }
      match env.queryObjects with
      | none => (.raised, s)
      | some (files, framecount) =>
        let dupes := duplicates config framecount
        let files := duplicate lastframe env.copyFault 0 dupes files
        let files₁ := if config.duplicatelastframe > 0 then filelist files else files₀
        let framecount :=
          if config.duplicatelastframe > 0 then files₁.length else framecount
        let s := { s with files := files, framecount := framecount }
        -- `int(framecount / targetlength)`
        if config.variableFps ∧ config.targetlength = 0 then (.raised, s)
        else
          let done := { s with
            renderisrunning := false
            files := cleanup env.removeFault 0 dupes files }
          match env.encode with
          -- `cmdstatus` is not bound
          | .raises => (.raised, s)
          | .response true => (.error, done)
          | .response false =>
            -- `filelist[-1:][0]`
            if config.previewimage ∧ files₁ = [] then (.raised, s) else (.success, done)

end Timelapse

end Cream.Model
