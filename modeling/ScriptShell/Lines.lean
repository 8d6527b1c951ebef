/-!
# ScriptShell.Lines

Reading lines. A line ends behind a newline or at the end of the bytes; its returns and newlines
at the end do not belong to it. Bytes that are no text make that one line unreadable and leave the
others alone.

* `ReadError`: why there is no line.
* `nextSegment`: bytes, cut behind their first newline.
* `nextLine`: what is read next.
* `readLines`: the lines of a sequence of bytes.
-/

namespace ScriptShell

/-- Why there is no line. -/
inductive ReadError where
  /-- Reading was interrupted. -/
  | interrupted
  | endOfInput
  /-- Reading failed, for a reason in words. -/
  | io (reason : String)
  deriving DecidableEq, Repr

/-- The words in which it is reported. -/
def ReadError.message : ReadError → String
  | .interrupted => "Interrupted"
  | .endOfInput => "End of input"
  | .io reason => "Failed to read line - " ++ reason

/-- The newline, as a byte. -/
def newlineByte : UInt8 := 10

/-- The first segment of the bytes, up to its newline or to their end, and the bytes behind it. -/
def nextSegment (bytes : List UInt8) : List UInt8 × List UInt8 :=
  let rest := bytes.dropWhile (· ≠ newlineByte)
  (bytes.takeWhile (· ≠ newlineByte) ++ rest.take 1, rest.drop 1)

/-- A line without the returns and newlines that end it. -/
def withoutLineEnd (line : String) : String :=
  String.ofList (line.toList.reverse.dropWhile (fun c => c = '\r' || c = '\n')).reverse

/-- The line that a segment is. -/
def lineOfSegment (segment : List UInt8) : Except ReadError String :=
  match String.fromUTF8? ⟨segment.toArray⟩ with
  | some line => .ok (withoutLineEnd line)
  | none => .error (.io "stream did not contain valid UTF-8")

/-- Read a line: the answer, and the bytes that are left for the next time. A segment that is no
text is consumed like any other. -/
def nextLine (bytes : List UInt8) : Except ReadError String × List UInt8 :=
  let (segment, rest) := nextSegment bytes
  (if segment = [] then .error .endOfInput else lineOfSegment segment, rest)

theorem nextLine_length_lt {bytes : List UInt8} (h : bytes ≠ []) :
    (nextLine bytes).2.length < bytes.length := by
  have hpos := List.length_pos_iff.mpr h
  have hle : (bytes.dropWhile (· ≠ newlineByte)).length ≤ bytes.length :=
    (List.dropWhile_sublist _).length_le
  simp only [nextLine, nextSegment, List.length_drop]
  omega

/-- The lines of a sequence of bytes: lines are read until no bytes are left. -/
def readLines (bytes : List UInt8) : List (Except ReadError String) :=
  if _h : bytes = [] then []
  else (nextLine bytes).1 :: readLines (nextLine bytes).2
termination_by bytes.length
decreasing_by exact nextLine_length_lt _h

end ScriptShell
