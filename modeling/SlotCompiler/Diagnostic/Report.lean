import SlotCompiler.Diagnostic.Basic
import SlotCompiler.Diagnostic.Excerpt

/-!
# Reports

A report writes every diagnostic that it receives below the ones before, counts them, and
always gives the same answer.  At the end it writes how many there were, if there were any.
-/

set_option autoImplicit false

namespace SlotCompiler

/-- A listener that writes diagnostics as texts. -/
structure Report where
  source : Source
  /-- The answer to every diagnostic. -/
  policy : Answer := .resume
  /-- How many diagnostics were written. -/
  count : Nat := 0
  /-- The text written so far. -/
  output : String := ""

namespace Report

/-- The number of errors in words. -/
def summary (count : Nat) : String :=
  if count = 1 then "1 error" else toString count ++ " errors"

/-- Writes a message about a span. -/
def add (report : Report) (message : String) (span : Span) : Report :=
  { report with
    count := report.count + 1
    output := report.output ++ (Excerpt.ofOffset report.source span.start).render message }

/-- Writes the summary, if there was any message. -/
def close (report : Report) : Report :=
  if report.count > 0 then
    { report with output := report.output ++ summary report.count ++ "\n" }
  else report

instance : Listener Report where
  tell report diagnostic :=
    (report.policy, report.add diagnostic.message diagnostic.span)

end Report

end SlotCompiler
