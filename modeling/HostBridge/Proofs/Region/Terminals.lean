import HostBridge.Proofs.Region.BuiltIn
import HostBridge.Proofs.Region.Course
import Mathlib.Data.List.Count
import Mathlib.Data.List.Nodup

/-!
# One terminal action for each extracted binding

Whichever course a run takes, every binding it extracts is published or cleaned up, and once:
on the normal path down to where a sync fails, on the ladder from there on. Names tell the
marks of a trace apart, so the counts can be read off the trace itself
(`Plan.run_accounted`).
-/

namespace HostBridge

theorem Kind.handle_disciplined (ident : Nat) : (Kind.handle ident).Disciplined where
  declare := by
    rintro b block ⟨⟩
    exact ⟨by simp [Block.Silent, Stmt.noted], rfl⟩
  extract := by
    rintro b fail block ⟨⟩
    exact ⟨by simp [Block.Silent, Stmt.noted], by simp [Block.targets, Stmt.target?]⟩
  cleanup := by
    rintro b block ⟨⟩
    exact ⟨by simp [Block.Silent, Stmt.noted], rfl⟩
  sync := by
    rintro b fail block ⟨⟩
    exact ⟨by simp [Block.Silent, Stmt.noted], by simp [Block.targets, Stmt.target?]⟩

theorem Kind.scalar_disciplined (type : ScalarType) (ident : Nat) :
    (Kind.scalar type ident).Disciplined where
  declare := by
    rintro b block ⟨⟩
    exact ⟨by simp [Block.Silent, Stmt.noted], rfl⟩
  extract := by
    rintro b fail block ⟨⟩
    exact ⟨by simp [Block.Silent, Stmt.noted], by simp [Block.targets, Stmt.target?]⟩
  cleanup := by
    rintro b block ⟨⟩
    exact ⟨by simp [Block.Silent], rfl⟩
  sync := by
    rintro b fail block ⟨⟩
    exact ⟨by simp [Block.Silent, Stmt.noted], by simp [Block.targets, Stmt.target?]⟩

/-- The hooks of built-in values keep to their place. -/
theorem Node.IsBuiltIn.disciplined {n : Node} (builtIn : n.IsBuiltIn) : n.kind.Disciplined := by
  rcases builtIn with ⟨ident, kind⟩ | ⟨type, ident, kind⟩
  · rw [kind]
    exact Kind.handle_disciplined ident
  · rw [kind]
    exact Kind.scalar_disciplined type ident

namespace Plan

variable {failed done : Label} {rungs : List Rung} {own : List Label} {exit? : Option Label}
  {marks : List Mark}

/-! ## Counting marks -/

theorem count_extract_extractMarks (rungs : List Rung) (b : Binding) :
    (extractMarks rungs).count (.extract b) = (bindings rungs).count b := by
  have marks : extractMarks rungs = (bindings rungs).map .extract := by
    simp [extractMarks, bindings]
  rw [marks]
  apply List.count_map_of_injective
  rintro b c ⟨⟩
  rfl

theorem act_not_mem_extractMarks (rungs : List Rung) (terminal : Terminal) (b : Binding) :
    .act terminal b ∉ extractMarks rungs := by
  simp [extractMarks]

theorem extract_not_mem_finishMarks (rungs : List Rung) (b : Binding) :
    .extract b ∉ finishMarks rungs := by
  simp [finishMarks]

theorem extract_not_mem_ladderMarks (failed done : Label) (rungs : List Rung) (b : Binding) :
    .extract b ∉ ladderMarks failed done rungs := by
  simp [ladderMarks, descentMarks]

theorem sync_not_mem_ladderMarks (failed done : Label) (rungs : List Rung) (b : Binding) :
    .act .sync b ∉ ladderMarks failed done rungs := by
  simp [ladderMarks, descentMarks]

theorem not_mem_passed {passed : List Label} {x : Mark} (other : ∀ l, x ≠ .label l) :
    x ∉ passed.map Mark.label := by
  intro mem
  obtain ⟨l, -, rfl⟩ := List.mem_map.1 mem
  exact other l rfl

/-- The normal path takes one terminal action for each rung. -/
theorem count_finishMarks (rungs : List Rung) (b : Binding) :
    (finishMarks rungs).count (.act .sync b) + (finishMarks rungs).count (.act .cleanup b) =
      (bindings rungs).count b := by
  induction rungs using List.reverseRecOn with
  | nil => rfl
  | append_singleton rungs r ih =>
    rw [finishMarks_snoc, bindings_append]
    simp only [List.count_append, bindings, List.map_cons, List.map_nil] at ih ⊢
    cases r.fragment.terminal
    all_goals
      by_cases same : r.fragment.binding = b
      all_goals
        simp [same]
        omega

/-- The ladder cleans up each rung. -/
theorem count_ladderMarks (failed done : Label) (rungs : List Rung) (b : Binding) :
    (ladderMarks failed done rungs).count (.act .cleanup b) = (bindings rungs).count b := by
  induction rungs using List.reverseRecOn with
  | nil => simp [ladderMarks, descentMarks, bindings]
  | append_singleton rungs r ih =>
    rw [ladderMarks_snoc, bindings_append]
    simp only [List.count_append, bindings, List.map_cons, List.map_nil] at ih ⊢
    by_cases same : r.fragment.binding = b
    all_goals
      simp [same]
      omega

/-- Once the body is reached all bindings are extracted, and what comes behind it has to take as
many terminal actions. -/
theorem count_terminal_of_reached {behind : List Mark} {b : Binding}
    (actions : behind.count (.act .sync b) + behind.count (.act .cleanup b) =
      (bindings rungs).count b)
    (unread : .extract b ∉ behind) :
    (extractMarks rungs ++ .body :: behind).count (.act .sync b) +
        (extractMarks rungs ++ .body :: behind).count (.act .cleanup b) =
      (extractMarks rungs ++ .body :: behind).count (.extract b) := by
  have unacted (terminal : Terminal) : (extractMarks rungs).count (.act terminal b) = 0 :=
    List.count_eq_zero_of_not_mem (act_not_mem_extractMarks rungs terminal b)
  have unread := List.count_eq_zero_of_not_mem unread
  simp [unacted, unread, count_extract_extractMarks]
  omega

/-- What was extracted was published or cleaned up, and once. -/
theorem Course.count_terminal (course : Course failed done rungs own exit? marks) (b : Binding) :
    marks.count (.act .sync b) + marks.count (.act .cleanup b) = marks.count (.extract b) := by
  have other (passed : List Label) (terminal : Terminal) :
      (passed.map Mark.label).count (.act terminal b) = 0 :=
    List.count_eq_zero_of_not_mem (not_mem_passed fun l e => by cases e)
  cases course with
  | @whole passed inside =>
    apply count_terminal_of_reached
    · simpa [other] using count_finishMarks rungs b
    · simp [extract_not_mem_finishMarks]
  | @unread below above r split =>
    have unacted (terminal : Terminal) := List.count_eq_zero_of_not_mem
      (act_not_mem_extractMarks (below ++ [r]) terminal b)
    have unsynced := List.count_eq_zero_of_not_mem
      (sync_not_mem_ladderMarks failed done (below ++ [r]) b)
    have unread := List.count_eq_zero_of_not_mem
      (extract_not_mem_ladderMarks failed done (below ++ [r]) b)
    simp only [List.count_append, unacted, unsynced, unread, count_extract_extractMarks,
      count_ladderMarks]
    omega
  | @left passed below above inside split sync =>
    apply count_terminal_of_reached
    · have finish := count_finishMarks above b
      have unsynced := List.count_eq_zero_of_not_mem (sync_not_mem_ladderMarks failed done below b)
      rw [split, bindings_append]
      simp only [List.count_append, other, unsynced, count_ladderMarks]
      omega
    · simp [extract_not_mem_finishMarks, extract_not_mem_ladderMarks]

/-- The bindings that were extracted are the first ones, and all of them if the body was reached. -/
theorem Course.extracted (course : Course failed done rungs own exit? marks) :
    ∃ k, (∀ b, marks.count (.extract b) = ((bindings rungs).take k).count b) ∧
      (.body ∈ marks → k = rungs.length) := by
  have reached {behind : List Mark} (unread : ∀ b, .extract b ∉ behind) (b : Binding) :
      (extractMarks rungs ++ .body :: behind).count (.extract b) =
        ((bindings rungs).take rungs.length).count b := by
    have unread := List.count_eq_zero_of_not_mem (unread b)
    have all : (bindings rungs).take rungs.length = bindings rungs :=
      List.take_of_length_le (by simp [bindings])
    rw [all]
    simp [unread, count_extract_extractMarks]
  cases course with
  | whole inside =>
    exact ⟨_, reached fun b => by simp [extract_not_mem_finishMarks], fun _ => rfl⟩
  | @unread below above r split =>
    refine ⟨(bindings (below ++ [r])).length, fun b => ?_, fun mem => ?_⟩
    · have unread := List.count_eq_zero_of_not_mem
        (extract_not_mem_ladderMarks failed done (below ++ [r]) b)
      have first : (bindings rungs).take (bindings (below ++ [r])).length =
          bindings (below ++ [r]) := by
        rw [split.trans (List.append_cons below r above), bindings_append (below ++ [r]) above,
          List.take_left]
      rw [first, List.count_append, count_extract_extractMarks, unread, Nat.add_zero]
    · simp [extractMarks, ladderMarks, descentMarks] at mem
  | left inside split sync =>
    exact ⟨_, reached fun b => by simp [extract_not_mem_finishMarks, extract_not_mem_ladderMarks],
      fun _ => rfl⟩

/-- An element that is not before another one stands behind it. -/
theorem mem_of_split {α : Type} {pre post before after : List α} {x y : α}
    (split : pre ++ y :: post = before ++ x :: after) (ne : x ≠ y) (out : x ∉ pre) : y ∈ before := by
  rcases List.append_eq_append_iff.1 split with ⟨more, rfl, tail⟩ | ⟨more, rfl, tail⟩
  · cases more with
    | nil => exact absurd (List.cons.inj tail).1.symm ne
    | cons z more =>
      obtain ⟨rfl, -⟩ := List.cons.inj tail
      simp
  · cases more with
    | nil => exact absurd (List.cons.inj tail).1 ne
    | cons z more =>
      obtain ⟨rfl, -⟩ := List.cons.inj tail
      exact absurd (List.mem_append_right _ (List.mem_cons_self ..)) out

/-- Nothing is published before the body, nor what was not to be. -/
theorem Course.synced (course : Course failed done rungs own exit? marks) {before after : List Mark}
    {b : Binding} (split : marks = before ++ .act .sync b :: after) :
    .body ∈ before ∧ ∃ r ∈ rungs, r.fragment.binding = b ∧ r.fragment.terminal = .sync := by
  have mem : .act .sync b ∈ marks := by
    rw [split]
    simp
  cases course with
  | whole inside =>
    refine ⟨mem_of_split split (fun e => by cases e) (act_not_mem_extractMarks _ _ _), ?_⟩
    simpa [extractMarks, finishMarks, and_comm] using mem
  | unread below => simp [extractMarks, ladderMarks, descentMarks] at mem
  | @left passed below above inside whole sync =>
    refine ⟨mem_of_split split (fun e => by cases e) (act_not_mem_extractMarks _ _ _), ?_⟩
    obtain ⟨r, there, same⟩ : ∃ r ∈ above, r.fragment.terminal = .sync ∧ r.fragment.binding = b := by
      simpa [extractMarks, finishMarks, ladderMarks, descentMarks] using mem
    exact ⟨r, whole ▸ List.mem_append_right _ there, same.2, same.1⟩

theorem Course.reached (course : Course failed done rungs own none marks) : .body ∈ marks := by
  cases course with
  | whole inside => simp

/-- On the normal path each rung takes its own terminal. -/
theorem Course.finished (course : Course failed done rungs own none marks) {r : Rung}
    (mem : r ∈ rungs) : .act r.fragment.terminal r.fragment.binding ∈ marks := by
  cases course with
  | whole inside =>
    have : .act r.fragment.terminal r.fragment.binding ∈ finishMarks rungs :=
      List.mem_map_of_mem (List.mem_reverse.2 mem)
    simp [this]

/-! ## The last labels -/

/-- What a run passes last: the end, and the failure label before it if it jumped to one. -/
def lastMarks (failed done : Label) : Option Label → List Mark
  | some _ => [.label failed, .label done]
  | none => [.label done]

/-- The last labels are passed last, and not before. -/
theorem Course.last (course : Course failed done rungs own exit? marks)
    (apart : ∀ l ∈ [failed, done], l ∉ own ∧ ∀ r ∈ rungs, r.fail ≠ l) :
    ∃ before, marks = before ++ lastMarks failed done exit? ∧
      ∀ l ∈ [failed, done], .label l ∉ before := by
  have unpassed {passed : List Label} (inside : ∀ l ∈ passed, l ∈ own) (l : Label)
      (last : l ∈ [failed, done]) : l ∉ passed :=
    fun mem => (apart l last).1 (inside l mem)
  have undescended {some other : List Rung} (split : rungs = some ++ other) (l : Label)
      (last : l ∈ [failed, done]) : .label l ∉ descentMarks some := by
    have fails (r : Rung) (mem : r ∈ some) : ¬ l = r.fail := fun e =>
      (apart l last).2 r (split ▸ List.mem_append_left _ mem) e.symm
    simpa [descentMarks] using fails
  cases course with
  | @whole passed inside =>
    refine ⟨extractMarks rungs ++ .body :: (passed.map .label ++ finishMarks rungs),
      by simp [lastMarks], fun l last => ?_⟩
    simp [extractMarks, finishMarks, unpassed inside l last]
  | @unread below above r split =>
    refine ⟨_, (List.append_assoc ..).symm, fun l last => ?_⟩
    simp [extractMarks, undescended (split.trans (List.append_cons ..)) l last]
  | @left passed below above inside split sync =>
    refine ⟨extractMarks rungs ++ .body ::
      (passed.map .label ++ (finishMarks above ++ descentMarks below)),
      by simp [lastMarks, ladderMarks], fun l last => ?_⟩
    simp [extractMarks, finishMarks, unpassed inside l last, undescended split l last]

theorem Course.failed_mem_iff (course : Course failed done rungs own exit? marks)
    (ne : failed ≠ done) (apart : ∀ l ∈ [failed, done], l ∉ own ∧ ∀ r ∈ rungs, r.fail ≠ l) :
    .label failed ∈ marks ↔ exit? ≠ none := by
  obtain ⟨before, rfl, early⟩ := course.last apart
  have early := early failed (by simp)
  cases exit? with
  | none => simp [lastMarks, early, ne]
  | some l => simp [lastMarks]

/-- A failure label that is jumped to is the top of some rungs. -/
theorem Course.exit (course : Course failed done rungs own exit? marks) {l : Label}
    (mem : l ∈ exit?) : ∃ below above, rungs = below ++ above ∧ top failed below = l := by
  cases course with
  | whole inside => cases mem
  | @unread below above r split =>
    cases mem
    exact ⟨below ++ [r], above, split.trans (List.append_cons ..), top_snoc ..⟩
  | @left passed below above inside split sync =>
    cases mem
    exact ⟨below, above, split, rfl⟩

/-! ## Built regions -/

/-- The labels to jump to where a part of the region fails. -/
def FailureLabel (p : Plan) (region : Region) (l : Label) : Prop :=
  l = region.failed ∨ ∃ j < p.entries.length, l.text = p.stem ++ "_fail_" ++ toString j

/-- What the trace of a run says of the bindings and of the last labels. -/
structure Accounted (p : Plan) (region : Region) (trace : List String) : Prop where
  /-- What was extracted was published or cleaned up, and once. -/
  terminal : ∀ e ∈ p.entries,
    trace.count ("sync " ++ e.binding.text) + trace.count ("cleanup " ++ e.binding.text) =
      trace.count ("extract " ++ e.binding.text)
  /-- The first bindings were extracted, once each, and all of them if the body was reached. -/
  extracted : ∃ k, (∀ j e, p.entries[j]? = some e →
      trace.count ("extract " ++ e.binding.text) = if j < k then 1 else 0) ∧
    ("body" ∈ trace → k = p.entries.length)
  /-- Nothing was published before the body, nor what was not to be. -/
  synced : ∀ e ∈ p.entries, ∀ before after,
    trace = before ++ ("sync " ++ e.binding.text) :: after → "body" ∈ before ∧ e.terminal = .sync
  /-- The end was passed once, as the last of all. -/
  done : trace.count (region.done.text ++ ":") = 1 ∧
    trace.getLast? = some (region.done.text ++ ":")
  /-- The failure label was passed right before the end, if at all. -/
  failed : trace.count (region.failed.text ++ ":") ≤ 1 ∧
    (region.failed.text ++ ":" ∈ trace →
      ∃ before, trace = before ++ [region.failed.text ++ ":", region.done.text ++ ":"])
  /-- If it was not, every binding got its own terminal action. -/
  finished : region.failed.text ++ ":" ∉ trace →
    "body" ∈ trace ∧ ∀ e ∈ p.entries, e.terminal.action ++ " " ++ e.binding.text ∈ trace

theorem labels_sublist (failed done : Label) (rungs : List Rung) (body : Block) :
    (body.labels ++ (rungs.reverse.map (·.fail) ++ [failed, done])).Sublist
      (layout failed done rungs body).labels := by
  have fails : (rungs.reverse.map (·.fail)).Sublist (ladder rungs).labels := by
    induction rungs using List.reverseRecOn with
    | nil => exact List.Sublist.refl []
    | append_singleton rungs r ih =>
      rw [ladder_snoc, Block.labels_cons, Block.labels_cons, Block.labels_append,
        List.reverse_append]
      exact (ih.trans (List.sublist_append_right _ _)).cons_cons r.fail
  have exits : (exits failed done).labels = [failed, done] := rfl
  have last : (rungs.reverse.map (·.fail) ++ [failed, done]).Sublist
      (ladder rungs ++ Plan.exits failed done).labels := by
    rw [Block.labels_append, exits]
    exact fails.append (List.Sublist.refl _)
  have whole : layout failed done rungs body =
      (declarations rungs ++ (extraction rungs ++ [.comment "body"])) ++ (body ++
        ((publication rungs ++ [.goto done]) ++ (ladder rungs ++ Plan.exits failed done))) := by
    simp [layout_eq]
  rw [whole, Block.labels_append (declarations rungs ++ _), Block.labels_append body,
    Block.labels_append (publication rungs ++ _)]
  refine List.Sublist.trans ?_ (List.sublist_append_right _ _)
  exact (List.Sublist.refl _).append (last.trans (List.sublist_append_right _ _))

namespace Assembly

variable {p : Plan} {body : Block} {region : Region}

theorem tracked (assembly : p.Assembly body region rungs)
    (disciplined : ∀ e ∈ p.entries, e.node.kind.Disciplined) :
    Tracked region.code region.failed region.done rungs where
  toLandings := assembly.landings
  disciplined := by
    rintro below r above rfl
    obtain ⟨before, e, after, split, -, raised⟩ := rungs_at_rung assembly.raised
    exact raised.disciplined (disciplined e (by rw [split]; simp))

/-- The last labels are no others of the region. -/
theorem apart (assembly : p.Assembly body region rungs) :
    region.failed ≠ region.done ∧
      ∀ l ∈ [region.failed, region.done], l ∉ body.labels ∧ ∀ r ∈ rungs, r.fail ≠ l := by
  have nodup := (labels_sublist region.failed region.done rungs body).nodup
    (assembly.code ▸ assembly.labels)
  rw [← List.append_assoc, List.nodup_append] at nodup
  obtain ⟨-, last, apart⟩ := nodup
  refine ⟨by simpa using last, fun l mem => ⟨fun own => ?_, ?_⟩⟩
  · exact apart l (List.mem_append_left _ own) l mem rfl
  · rintro r there rfl
    have mem' : r.fail ∈ rungs.reverse.map (·.fail) :=
      List.mem_map_of_mem (List.mem_reverse.2 there)
    exact apart r.fail (List.mem_append_right _ mem') r.fail mem rfl

theorem failureLabel_iff (assembly : p.Assembly body region rungs) {l : Label} :
    p.FailureLabel region l ↔
      ∃ below above, rungs = below ++ above ∧ top region.failed below = l := by
  have raised := assembly.raised
  constructor
  · rintro (rfl | ⟨j, bound, text⟩)
    · exact ⟨[], rungs, rfl, rfl⟩
    · have split : p.entries = p.entries.take j ++ p.entries[j] :: p.entries.drop (j + 1) := by
        rw [List.getElem_cons_drop, List.take_append_drop]
      rw [split] at raised
      obtain ⟨below, r, above, rfl, first, raised⟩ := rungs_at_entry raised
      refine ⟨below ++ [r], above, List.append_cons .., ?_⟩
      rw [top_snoc]
      apply Label.eq_of_text
      rw [raised.fail_text, text, length_rungsFrom first, List.length_take,
        Nat.min_eq_left (by omega)]
  · rintro ⟨below, above, rfl, rfl⟩
    cases below using List.reverseRecOn with
    | nil => exact .inl rfl
    | append_singleton below r =>
      rw [List.append_assoc, List.singleton_append] at raised
      obtain ⟨before, e, after, split, first, raised⟩ := rungs_at_rung raised
      refine .inr ⟨below.length, ?_, ?_⟩
      · rw [split, length_rungsFrom first, List.length_append, List.length_cons]
        omega
      · rw [top_snoc, raised.fail_text]

end Assembly

theorem count_take_of_nodup {α : Type} [DecidableEq α] {l : List α} (nodup : l.Nodup) {j : Nat}
    {x : α} (there : l[j]? = some x) (k : Nat) : (l.take k).count x = if j < k then 1 else 0 := by
  obtain ⟨bound, rfl⟩ := List.getElem?_eq_some_iff.1 there
  have mem : l[j] ∈ l.take k ↔ j < k := by
    rw [List.mem_take_iff_getElem]
    constructor
    · rintro ⟨i, less, same⟩
      have := (nodup.getElem_inj_iff).1 same
      omega
    · intro less
      exact ⟨j, by omega, rfl⟩
  rw [(nodup.sublist (List.take_sublist ..)).count]
  simp only [mem]

/-- A run's course accounts for its bindings. -/
theorem Course.accounted {p : Plan} {body : Block} {region : Region}
    (assembly : p.Assembly body region rungs) (nodup : (p.entries.map (·.binding.text)).Nodup)
    (course : Course region.failed region.done rungs own exit? marks)
    (apart : region.failed ≠ region.done ∧
      ∀ l ∈ [region.failed, region.done], l ∉ own ∧ ∀ r ∈ rungs, r.fail ≠ l) :
    p.Accounted region (marks.map Mark.text) where
  terminal := by
    intro e mem
    rw [← Mark.text_sync, ← Mark.text_cleanup, ← Mark.text_extract, Mark.count_text, Mark.count_text,
      Mark.count_text]
    exact course.count_terminal e.binding
  extracted := by
    obtain ⟨k, counts, reached⟩ := course.extracted
    refine ⟨k, fun j e there => ?_, fun body => ?_⟩
    · have distinct : (bindings rungs).Nodup := by
        rw [bindings_rungsFrom assembly.raised]
        exact List.Nodup.of_map Binding.text (by rwa [List.map_map])
      have here : (bindings rungs)[j]? = some e.binding := by
        rw [bindings_rungsFrom assembly.raised, List.getElem?_map, there]
        rfl
      rw [← Mark.text_extract, Mark.count_text, counts, count_take_of_nodup distinct here]
    · rw [reached (Mark.text_mem.1 body), length_rungsFrom assembly.raised]
  synced := by
    rintro e mem before after split
    obtain ⟨first, rest, rfl, rfl, second⟩ := List.map_eq_append_iff.1 split
    obtain ⟨x, last, rfl, same, rfl⟩ := List.map_eq_cons_iff.1 second
    cases Mark.text_injective (same.trans (Mark.text_sync e.binding).symm)
    obtain ⟨reached, r, there, binding, sync⟩ := course.synced rfl
    obtain ⟨e', mem', name, terminal⟩ := entry_of_rung assembly.raised there
    have text : e'.binding.text = e.binding.text := by
      rw [← name, Rung.name, binding]
    cases List.inj_on_of_nodup_map nodup mem' mem text
    exact ⟨Mark.text_mem.2 reached, terminal.symm.trans sync⟩
  done := by
    obtain ⟨before, rfl, early⟩ := course.last apart.2
    have early := List.count_eq_zero_of_not_mem (early region.done (by simp))
    rw [← Mark.text_label, Mark.count_text, List.count_append, early, List.getLast?_map]
    cases exit? with
    | none => simp [lastMarks]
    | some l => simp [lastMarks, apart.1]
  failed := by
    have passed := course.failed_mem_iff apart.1 apart.2
    obtain ⟨before, rfl, early⟩ := course.last apart.2
    have early := List.count_eq_zero_of_not_mem (early region.failed (by simp))
    rw [← Mark.text_label, Mark.count_text, Mark.text_mem, passed, List.count_append, early]
    cases exit? with
    | none => simp [lastMarks, apart.1.symm]
    | some l =>
      refine ⟨by simp [lastMarks, apart.1.symm], fun _ => ⟨before.map Mark.text, ?_⟩⟩
      rw [List.map_append]
      rfl
  finished := by
    intro unfailed
    rw [← Mark.text_label, Mark.text_mem, course.failed_mem_iff apart.1 apart.2,
      Classical.not_not] at unfailed
    subst unfailed
    refine ⟨Mark.text_mem.2 course.reached, fun e mem => ?_⟩
    obtain ⟨r, there, name, terminal⟩ := rung_of_entry assembly.raised mem
    rw [← name, ← terminal]
    exact Mark.text_mem.2 (course.finished there)

/-- For kinds of any sort that keep to their place and any such body, every run that ends accounts
for its bindings, and it passes the failure label just if it jumped to one. -/
theorem run_accounted {abi : Abi} {p : Plan} {body : Label → Block} {region : Region} {h h' : Host}
    {trace : Array String} (grown : Plan.Grown abi p)
    (disciplined : ∀ e ∈ p.entries, e.node.kind.Disciplined) (built : p.build body = .ok region)
    (confined : ∀ target, p.bodyTarget = .ok target → (body target).Confined target)
    (run : h.run region.code = (.ok trace, h')) :
    p.Accounted region trace.toList ∧
      (region.failed.text ++ ":" ∈ trace.toList ↔
        ∃ l mid, p.FailureLabel region l ∧ Machine.Jumps region.code (Machine.start h) l mid) := by
  obtain ⟨rungs, target, assembly⟩ := assembly_of_build built
  obtain ⟨final, rfl, ends⟩ := Machine.ends_of_run run
  have tracked := assembly.tracked disciplined
  obtain ⟨exit?, marks, course, passes, jumps⟩ :=
    run_course tracked assembly.code assembly.labels (confined _ target) ends
  have trace_eq : final.trace.toList = marks.map Mark.text := passes
  rw [trace_eq]
  refine ⟨course.accounted assembly grown.nodup assembly.apart, ?_⟩
  constructor
  · intro failed
    rw [← Mark.text_label, Mark.text_mem, course.failed_mem_iff assembly.apart.1 assembly.apart.2]
      at failed
    obtain ⟨l, rfl⟩ := Option.ne_none_iff_exists'.1 failed
    obtain ⟨mid, jumps⟩ := jumps l rfl
    exact ⟨l, mid, assembly.failureLabel_iff.2 (course.exit rfl), jumps⟩
  · rintro ⟨l, mid, failure, jumps⟩
    obtain ⟨below, above, split, head⟩ := assembly.failureLabel_iff.1 failure
    have down := passes_of_jumps tracked split head ends jumps
    rw [← trace_eq, down]
    simp [ladderMarks, Mark.text]

/-- A body that goes round until the handle is null, and leaves then. -/
def untilNull (fail : Label) : Block :=
  [.label ⟨"again", rfl⟩, .gotoIfNull (.native "a") fail, .decRef (.native "a"), .clear (.native "a"),
    .goto ⟨"again", rfl⟩]

theorem untilNull_confined (fail : Label) : (untilNull fail).Confined fail where
  uncommented := by simp [untilNull]
  targets := by
    have targets : (untilNull fail).targets = [fail, ⟨"again", rfl⟩] := rfl
    have labels : (untilNull fail).labels = [⟨"again", rfl⟩] := rfl
    rw [targets, labels]
    exact fun l mem => List.mem_cons.1 mem

/-- The second time round the body leaves, and both bindings are cleaned up. -/
theorem sharedInteger_run_accounted :
    ∃ region trace h', handleAndCounter.build untilNull = .ok region ∧
      sharedInteger.run region.code = (.ok trace, h') ∧
      trace = #["extract a", "extract n", "body", "again:", "again:", "r_fail_1:", "cleanup n",
        "r_fail_0:", "cleanup a", "r_failed:", "r_done:"] ∧
      handleAndCounter.Accounted region trace.toList ∧
      ∃ l mid, handleAndCounter.FailureLabel region l ∧
        Machine.Jumps region.code (Machine.start sharedInteger) l mid := by
  have disciplined (e : Entry) (mem : e ∈ handleAndCounter.entries) : e.node.kind.Disciplined :=
    (handleAndCounter_builtIn e mem).disciplined
  obtain ⟨region, trace, h', built, run, passed, failed⟩ : ∃ region trace h',
      handleAndCounter.build untilNull = .ok region ∧
      sharedInteger.run region.code = (.ok trace, h') ∧
      trace = #["extract a", "extract n", "body", "again:", "again:", "r_fail_1:", "cleanup n",
        "r_fail_0:", "cleanup a", "r_failed:", "r_done:"] ∧
      region.failed.text ++ ":" ∈ trace.toList := ⟨_, _, _, rfl, rfl, rfl, by decide⟩
  obtain ⟨accounted, jumps⟩ := run_accounted handleAndCounter_grown disciplined built
    (fun target _ => untilNull_confined target) run
  exact ⟨region, trace, h', built, run, passed, accounted, jumps.1 failed⟩

end Plan
end HostBridge
