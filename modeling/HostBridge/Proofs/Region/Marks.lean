import HostBridge.Region.Plan
import Mathlib.Data.List.Basic
import Mathlib.Data.List.Count

/-!
# The marks in a trace

A run of a region notes what it extracts, publishes and cleans up, when it enters the body and
which labels it passes. Names are identifiers, so a trace determines what was passed
(`Mark.text_injective`).
-/

namespace HostBridge

theorem isIdentifierRest_of_mem {s : String} (identifier : isIdentifier s = true) {c : Char}
    (mem : c ∈ s.toList) : isIdentifierRest c = true := by
  unfold isIdentifier at identifier
  split at identifier
  · cases identifier
  · next first rest chars =>
    rw [Bool.and_eq_true, List.all_eq_true] at identifier
    rw [chars] at mem
    rcases List.mem_cons.1 mem with rfl | mem
    · obtain ⟨start, -⟩ := identifier
      unfold isIdentifierStart at start
      unfold isIdentifierRest
      unfold Char.isAlphanum
      cases alpha : c.isAlpha with
      | true => rfl
      | false =>
        rw [alpha, Bool.false_or] at start
        rw [start, Bool.or_true]
    · exact identifier.2 c mem

/-- A name is told from the punctuation around it. -/
theorem not_mem_of_isIdentifier {s : String} (identifier : isIdentifier s = true) {c : Char}
    (other : isIdentifierRest c = false) : c ∉ s.toList := by
  intro mem
  rw [isIdentifierRest_of_mem identifier mem] at other
  cases other

theorem Binding.eq_of_text {b c : Binding} (same : b.text = c.text) : b = c := by
  cases b
  cases c
  cases same
  rfl

theorem Label.eq_of_text {l k : Label} (same : l.text = k.text) : l = k := by
  cases l
  cases k
  cases same
  rfl

/-- An entry of a region's trace. -/
inductive Mark where
  | extract (b : Binding)
  | act (terminal : Terminal) (b : Binding)
  | body
  | label (l : Label)
  deriving DecidableEq

def Mark.text : Mark → String
  | extract b => "extract " ++ b.text
  | act terminal b => terminal.action ++ " " ++ b.text
  | body => "body"
  | label l => l.text ++ ":"

namespace Mark

theorem text_extract (b : Binding) : text (.extract b) = "extract " ++ b.text := rfl

theorem text_sync (b : Binding) : text (.act .sync b) = "sync " ++ b.text := rfl

theorem text_cleanup (b : Binding) : text (.act .cleanup b) = "cleanup " ++ b.text := rfl

theorem text_label (l : Label) : text (.label l) = l.text ++ ":" := rfl

/-- All marks but labels are without colons. -/
theorem colon_mem_text {m : Mark} : ':' ∈ m.text.toList ↔ ∃ l, m = .label l := by
  have absent (b : Binding) : ':' ∉ b.text.toList := not_mem_of_isIdentifier b.isIdentifier_text rfl
  cases m with
  | extract b => simp [text, absent b]
  | act terminal b => cases terminal <;> simp [text, Terminal.action, absent b]
  | body => simp [text]
  | label l => simp [text]

/-- A trace determines what was passed: labels end in a colon, the other kinds of marks differ in
their first letters, and the rest is the name. -/
theorem text_injective : Function.Injective text := by
  intro m n same
  have labels : (∃ l, m = .label l) ↔ ∃ l, n = .label l := by
    rw [← colon_mem_text, ← colon_mem_text, same]
  have initial : m.text.toList.head? = n.text.toList.head? := by rw [same]
  cases m with
  | label l =>
    obtain ⟨k, rfl⟩ := labels.1 ⟨l, rfl⟩
    rw [Label.eq_of_text ((String.append_left_inj _).1 same)]
  | body =>
    cases n with
    | body => rfl
    | extract c => simp [text] at initial
    | act terminal c => cases terminal <;> simp [text, Terminal.action] at initial
    | label k => simp at labels
  | extract b =>
    cases n with
    | extract c => rw [Binding.eq_of_text ((String.append_right_inj _).1 same)]
    | body => simp [text] at initial
    | act terminal c => cases terminal <;> simp [text, Terminal.action] at initial
    | label k => simp at labels
  | act terminal b =>
    cases n with
    | act other c =>
      have same_terminal : terminal = other := by
        cases terminal <;> cases other <;> first | rfl | simp [text, Terminal.action] at initial
      subst same_terminal
      rw [Binding.eq_of_text ((String.append_right_inj _).1 same)]
    | body => cases terminal <;> simp [text, Terminal.action] at initial
    | extract c => cases terminal <;> simp [text, Terminal.action] at initial
    | label k => simp at labels

theorem text_mem {marks : List Mark} {m : Mark} : m.text ∈ marks.map text ↔ m ∈ marks :=
  List.mem_map_of_injective text_injective

theorem count_text (marks : List Mark) (m : Mark) : (marks.map text).count m.text = marks.count m :=
  List.count_map_of_injective _ _ text_injective _

end Mark
end HostBridge
