import SlotCompiler.Diagnostic.Basic

/-!
# Transcripts

A transcript is a listener that keeps every diagnostic it receives, in order, and answers the
first, second, third one and so on as it was told to in advance.
-/

set_option autoImplicit false

namespace SlotCompiler

/-- A listener with fixed answers that keeps what it receives. -/
structure Transcript where
  /-- The answer to each diagnostic, counted from 0. -/
  answer : Nat → Answer
  /-- The diagnostics received so far, in order. -/
  received : List Diagnostic := []

namespace Transcript

/-- A transcript that gives some answers in turn, then the last of them for ever.  Without any
answer it always goes on. -/
def following (answers : List Answer) : Transcript where
  answer index := answers.getD (min index (answers.length - 1)) .resume

/-- A transcript that always gives one answer. -/
def always (fixed : Answer) : Transcript where
  answer _ := fixed

instance : Listener Transcript where
  tell transcript diagnostic :=
    (transcript.answer transcript.received.length,
      { transcript with received := transcript.received ++ [diagnostic] })

end Transcript

end SlotCompiler
