import FieldPlot.Bounds
import FieldPlot.Header

/-!
A recording: a header, and a time stamp and a frame for every step. The two conditions on its parts
are part of the type, so whoever holds a recording may rely on them.
-/
namespace FieldPlot

structure Recording where
  header : Header
  /-- The time of every step in milliseconds. -/
  times : List Float
  frames : List (List Float)
  times_length : times.length = frames.length
  frames_length : ∀ frame ∈ frames, frame.length = header.frameLength

namespace Recording

def misfit? (header : Header) (frames : List (List Float)) : Option (List Float) :=
  frames.find? fun frame => frame.length != header.frameLength

theorem length_of_no_misfit {header : Header} {frames : List (List Float)}
    (fits : misfit? header frames = none) :
    ∀ frame ∈ frames, frame.length = header.frameLength := by
  intro frame member
  have same := List.find?_eq_none.mp fits frame member
  simpa using same

def ofParts (header : Header) (times : List Float) (frames : List (List Float)) :
    Except Error Recording :=
  if paired : times.length = frames.length then
    match fits : misfit? header frames with
    | none => .ok ⟨header, times, frames, paired, length_of_no_misfit fits⟩
    | some frame => .error (.shapeMismatch header.extents header.frameLength frame.length none)
  else .error (.unmatchedTimes times.length frames.length)

/-- A recording whose time stamps are the step numbers. -/
def ofFrames (header : Header) (frames : List (List Float)) : Except Error Recording :=
  ofParts header ((List.range frames.length).map Float.ofNat) frames

def steps (r : Recording) : Nat :=
  r.frames.length

def rank (r : Recording) : Nat :=
  r.header.rank

def frame (r : Recording) (step : Nat) : Except Error (List Float) :=
  match r.frames[step]? with
  | some frame => .ok frame
  | none => .error (.stepOutOfRange step r.steps)

/-- The first value of every frame that has one; for data without axes this is the series of its
    values. -/
def series (r : Recording) : List Float :=
  r.frames.filterMap List.head?

def range (r : Recording) : Option (Float × Float) :=
  Bounds.finite r.frames.flatten

end Recording
end FieldPlot
