/-
  File:      CallByNeed/Diagnostic/Snippet.lean
  Subject:   Faults drawn into the line they are in.

      Error: main:1:1: name foo is not bound
         ╭─[ main:1:1 ]
         │
       1 │ foo
         │ ─┬─
         │  ╰─── name foo is not bound
      ───╯

  * `Paint` -- colours, or none;
  * `Snippet` -- a source line with a span in it, and what is said about the span;
  * `Snippet.draw` -- the drawing;
  * `Failure.render` -- any failure, drawn if it has a place.
-/
import CallByNeed.Diagnostic
import CallByNeed.Text.Lines

namespace CallByNeed

/-! ## 1. Colours -/

/-- Colours of a terminal, by what they are used for. -/
inductive Paint where
  /-- The frame around the snippet, and line numbers. -/
  | frame
  /-- The frame beside lines that hold no source text. -/
  | gutter
  /-- The span and what points at it. -/
  | label
  /-- Source text outside the span. -/
  | source
  | help
  deriving DecidableEq, Repr, Inhabited

/-- The number of a colour in the terminal's palette. -/
def Paint.code : Paint → Nat
  | .frame => 246
  | .gutter => 240
  | .label => 155
  | .source => 249
  | .help => 115

/-- A piece of text in a colour, if there are to be colours. -/
def painted (color : Bool) (p : Paint) (s : String) : String :=
  if color then s!"\x1b[38;5;{p.code}m" ++ s ++ "\x1b[0m" else s

/-- A text in which every character has its own colour mark. -/
def paintedEach (color : Bool) (p : Paint) (s : String) : String :=
  String.join (s.toList.map fun c => painted color p c.toString)

/-! ## 2. The drawing -/

/-- Blanks. -/
def spaces (n : Nat) : String := String.ofList (List.replicate n ' ')

/-- A horizontal line. -/
def bars (n : Nat) : String := String.ofList (List.replicate n '─')

/-- A source line with a span in it. -/
structure Snippet where
  /-- Name of the source. -/
  name : String
  /-- Where the span starts, in lines as a terminal shows them. -/
  place : LineColumn
  /-- The line that the span starts in. -/
  line : List Char
  /-- Characters that the span covers. -/
  width : Nat
  message : String
  help : Option String
  deriving DecidableEq, Repr, Inhabited

namespace Snippet

/-- Room for the line number, with a blank on either side. -/
def pad (s : Snippet) : Nat := s.place.line.repr.length + 2

/-- Characters of the line in front of the span. -/
def indent (s : Snippet) : Nat := s.place.column - 1

/-- The line without its end and the white space in front of that. -/
def shownLine (s : Snippet) : List Char :=
  (s.line.reverse.dropWhile isBlankChar).reverse

/-- The top of the frame, with the place. -/
def header (color : Bool) (s : Snippet) : String :=
  spaces s.pad ++ paintedEach color .frame "╭─[" ++
    s!" {s.name}:{s.place.line}:{s.place.column} " ++ painted color .frame "]"

/-- The empty line below the top. -/
def margin (color : Bool) (s : Snippet) : String :=
  spaces s.pad ++ painted color .frame "│"

/-- The source line, the span in the colour of the label. -/
def sourceLine (color : Bool) (s : Snippet) : String :=
  let shown := s.shownLine
  let before := String.ofList (shown.take s.indent)
  let inside := String.ofList ((shown.drop s.indent).take s.width)
  let behind := String.ofList ((shown.drop s.indent).drop s.width)
  " " ++ painted color .frame s!"{s.place.line} │" ++ " " ++ paintedEach color .source before ++
    paintedEach color .label inside ++ paintedEach color .source behind

/-- The frame in front of a line that holds no source text. -/
def gutter (color : Bool) (s : Snippet) : String :=
  " " ++ painted color .gutter (spaces (s.pad - 1) ++ "│") ++ " "

/-- The line that underlines the span; a tick in its middle leads down. -/
def underline (color : Bool) (s : Snippet) : String :=
  let half := s.width / 2
  if s.width = 0 then s.gutter color ++ spaces s.indent ++ painted color .label "│" ++ " "
  else s.gutter color ++ spaces s.indent ++
    paintedEach color .label (bars half ++ "┬" ++ bars (s.width - half - 1)) ++ "  "

/-- The line that leads from the tick to the message. -/
def arrow (color : Bool) (s : Snippet) : String :=
  let half := s.width / 2
  let tail := if s.width = 0 then 1 else s.width - half + 1
  s.gutter color ++ spaces (s.indent + half) ++ paintedEach color .label ("╰" ++ bars tail) ++
    " " ++ s.message

/-- The lines of a hint. -/
def helpLines (color : Bool) (s : Snippet) : List String :=
  match s.help with
  | none => []
  | some help => [s.gutter color, s.gutter color ++ painted color .help "Help" ++ ": " ++ help]

/-- The bottom of the frame. -/
def footer (color : Bool) (s : Snippet) : String :=
  painted color .frame (bars s.pad ++ "╯")

/-- The whole drawing, a line break behind every line. -/
def draw (color : Bool) (s : Snippet) : String :=
  let lines := [s.header color, s.margin color, s.sourceLine color, s.underline color,
    s.arrow color] ++ s.helpLines color ++ [s.footer color]
  String.join (lines.map (· ++ "\n"))

end Snippet

/-! ## 3. Failures -/

/-- Characters that begin in the first `bytes` bytes of a text. -/
def charsWithin : (bytes : Nat) → List Char → Nat
  | 0, _ => 0
  | _, [] => 0
  | n + 1, c :: cs => charsWithin (n + 1 - c.utf8Size) cs + 1

/-- Line and column of a place. A line end counts as the characters that it is written with. -/
def InLine.lineColumn (p : InLine) : LineColumn :=
  ⟨p.above + 1, charsWithin p.offset p.line + 1⟩

/-- The snippet of a diagnostic about a source. -/
def Diagnostic.snippet (d : Diagnostic) (source : Source) (span : Span) : Snippet :=
  let start := seekLine 0 span.start (linesOf source.chars)
  { name := source.name
    place := start.lineColumn
    line := start.line
    width := charsWithin span.size (dropBytes span.start source.chars)
    message := d.message
    help := d.help }

/-- The word in front of a drawn fault. -/
def errorHead (color : Bool) : String :=
  if color then "\x1b[31mError:\x1b[0m" else "Error:"

/-- A compile fault: drawn, or on one line if it is in predefined code. -/
def CompileFault.render (color : Bool) (e : CompileFault) : String :=
  let d := e.diagnostic
  match d.span with
  | none => "Error: " ++ d.line ++ "\n"
  | some span =>
    errorHead color ++ " " ++ d.line ++ "\n" ++ (d.snippet e.pos.source span).draw color

/-- Any failure, for a reader with room. -/
def Failure.render (color : Bool) : Failure → String
  | .compile e => e.render color
  | .timeout limit => "Timeout: evaluation exceeded " ++ limit.toText ++ "\n"
  | failure => "Runtime error: " ++ failure.message ++ "\n"

end CallByNeed
