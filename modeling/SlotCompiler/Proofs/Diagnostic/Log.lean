import SlotCompiler.Diagnostic.Report

/-!
# Listening in

A log stands in front of a listener: it passes every diagnostic on, gives the listener's answer
back, and keeps both.  So a log shows what any listener is told and what it answers, in order,
without changing either.

A report writes exactly what its log shows: the diagnostics, each as a message about an excerpt,
one below the other (`Logged.Written`).
-/

set_option autoImplicit false

namespace SlotCompiler

/-- A diagnostic that was delivered, and the answer to it. -/
structure Delivery where
  diagnostic : Diagnostic
  answer : Answer
  deriving DecidableEq, Repr

/-- A listener and what was delivered to it, in order. -/
structure Logged (σ : Type) where
  listener : σ
  log : List Delivery := []

instance {σ : Type} [Listener σ] : Listener (Logged σ) where
  tell logged diagnostic :=
    let told := Listener.tell logged.listener diagnostic
    (told.1, ⟨told.2, logged.log ++ [⟨diagnostic, told.1⟩]⟩)

/-- Every delivery keeps a property of listeners. -/
def Listener.Keeps {σ : Type} [Listener σ] (holds : σ → Prop) : Prop :=
  ∀ listener diagnostic, holds listener → holds (tell listener diagnostic).2

/-! ## What a report writes -/

/-- A report that has received nothing. -/
def Report.empty (source : Source) (policy : Answer) : Report where
  source := source
  policy := policy

/-- A diagnostic as it is written: its message about the excerpt it points at. -/
def Diagnostic.render (source : Source) (diagnostic : Diagnostic) : String :=
  (Excerpt.ofOffset source diagnostic.span.start).render diagnostic.message

/-- A report on a source has written and counted the diagnostics of its log. -/
structure Logged.Written (source : Source) (logged : Logged Report) : Prop where
  source_eq : logged.listener.source = source
  output_eq : logged.listener.output =
    String.join (logged.log.map fun delivery => delivery.diagnostic.render source)
  count_eq : logged.listener.count = logged.log.length

namespace Logged.Written

variable {source : Source} {logged : Logged Report}

theorem start (source : Source) (policy : Answer) :
    Written source ⟨.empty source policy, []⟩ := ⟨rfl, rfl, rfl⟩

/-- A report writes one more diagnostic. -/
theorem tell (written : logged.Written source) (diagnostic : Diagnostic) :
    Written source (Listener.tell logged diagnostic).2 := by
  obtain ⟨same, output, count⟩ := written
  refine ⟨same, ?_, ?_⟩
  · show logged.listener.output ++ _ = _
    rw [output, same]
    simp [Listener.tell, String.join, Diagnostic.render]
  · show logged.listener.count + 1 = (logged.log ++ [_]).length
    rw [count, List.length_append, List.length_singleton]

theorem keeps (source : Source) : Listener.Keeps (Written source) :=
  fun _ diagnostic written => written.tell diagnostic

/-- What stands in a report once it is closed. -/
theorem close (written : logged.Written source) :
    logged.listener.close.output =
        String.join (logged.log.map fun delivery => delivery.diagnostic.render source) ++
          (if logged.log = [] then "" else Report.summary logged.log.length ++ "\n") ∧
      logged.listener.close.count = logged.log.length := by
  have some_iff : logged.listener.count > 0 ↔ logged.log ≠ [] := by
    rw [written.count_eq]
    exact List.length_pos_iff
  unfold Report.close
  by_cases none : logged.log = []
  · rw [if_neg fun more => some_iff.mp more none, if_pos none, written.output_eq, written.count_eq,
      String.append_empty]
    exact ⟨rfl, rfl⟩
  · rw [if_pos (some_iff.mpr none), if_neg none]
    refine ⟨?_, written.count_eq⟩
    rw [← written.output_eq, ← written.count_eq, String.append_assoc]

end Logged.Written

end SlotCompiler
