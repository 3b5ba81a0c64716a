import HostBridge.Native.Render
import HostBridge.Proofs.Region.Marks
import HostBridge.Proofs.Run.Steps
import Mathlib.Data.List.Nodup
import Mathlib.Data.List.Pairwise

/-!
# Names in a plan

A plan is asked for bindings one after the other, and a request that it refuses leaves it as it
was. What two bindings have against each other does not depend on which of them came first
(`Entry.Apart`), though a binding's name is compared with the other's name behind the slots'
prefix. So all of several requests are accepted, in whatever order they come, exactly if no two of
them are in each other's way; and where an `Abi` has no fault, no native variable and no host slot
of a plan share a name (`Plan.offerAll_named`).
-/

namespace HostBridge

/-- The entries are not in each other's way: they are of two nodes, have two names, and neither is
named like the other's host slot. -/
structure Entry.Apart (slotPrefix : String) (e f : Entry) : Prop where
  node : e.node.id ≠ f.node.id
  name : e.binding.text ≠ f.binding.text
  slot : e.binding.text ≠ slotPrefix ++ f.binding.text ∧ f.binding.text ≠ slotPrefix ++ e.binding.text

theorem Entry.Apart.symm {slotPrefix : String} {e f : Entry} (apart : e.Apart slotPrefix f) :
    f.Apart slotPrefix e :=
  ⟨apart.node.symm, apart.name.symm, apart.slot.symm⟩

namespace Plan

/-- The plan after a request, which is the same plan if that is refused, and why it was refused, if
it was. -/
def offer (p : Plan) (e : Entry) : Plan × Option ValueError :=
  match p.bind e.node e.binding e.terminal with
  | .ok q => (q, none)
  | .error reason => (p, some reason)

/-- The plan after requests one after the other, and what became of each. -/
def offerAll (p : Plan) : List Entry → Plan × List (Option ValueError)
  | [] => (p, [])
  | e :: rest =>
    let (q, answer) := p.offer e
    let (q, answers) := q.offerAll rest
    (q, answer :: answers)

/-- No request is refused. -/
def AcceptsAll (p : Plan) (requests : List Entry) : Prop :=
  ∀ answer ∈ (p.offerAll requests).2, answer = none

/-- The requests that were not refused. -/
def accepted (p : Plan) (requests : List Entry) : List Entry :=
  ((requests.zip (p.offerAll requests).2).filter fun r => r.2.isNone).map Prod.fst

variable {p : Plan} {e : Entry} {requests : List Entry}

/-! ## One request -/

theorem objection?_eq_none_iff {f : Entry} :
    p.objection? e.node e.binding f = none ↔ f.Apart p.slotPrefix e := by
  unfold objection? slotName Node.same
  constructor
  · intro silent
    split at silent
    · cases silent
    · next node =>
      split at silent
      · cases silent
      · next name =>
        split at silent
        · cases silent
        · next slot =>
          rw [not_or] at slot
          exact ⟨by simpa using node, fun same => name (Binding.eq_of_text same), slot.2, slot.1⟩
  · intro apart
    rw [if_neg (by simpa using apart.node), if_neg, if_neg]
    · rintro (slot | slot)
      · exact apart.slot.2 slot
      · exact apart.slot.1 slot
    · intro same
      exact apart.name (congrArg Binding.text same)

/-- A request is refused if an entry is in its way, and then changes nothing. -/
theorem offer_cases (p : Plan) (e : Entry) :
    ((∀ f ∈ p.entries, f.Apart p.slotPrefix e) ∧
        p.offer e = ({ p with entries := p.entries ++ [e] }, none)) ∨
      ((¬ ∀ f ∈ p.entries, f.Apart p.slotPrefix e) ∧ ∃ reason, p.offer e = (p, some reason)) := by
  unfold offer bind
  cases found : p.entries.findSome? (p.objection? e.node e.binding) with
  | none =>
    refine .inl ⟨?_, rfl⟩
    intro f mem
    exact objection?_eq_none_iff.1 (List.findSome?_eq_none_iff.1 found f mem)
  | some fault =>
    refine .inr ⟨?_, _, rfl⟩
    intro apart
    obtain ⟨f, mem, objects⟩ := List.exists_of_findSome?_eq_some found
    rw [objection?_eq_none_iff.2 (apart f mem)] at objects
    cases objects

theorem offer_eq_none_iff : (p.offer e).2 = none ↔ ∀ f ∈ p.entries, f.Apart p.slotPrefix e := by
  rcases offer_cases p e with ⟨apart, answer⟩ | ⟨objected, reason, answer⟩
  · rw [answer]
    exact iff_of_true rfl apart
  · rw [answer]
    exact iff_of_false (Option.some_ne_none reason) objected

theorem offer_of_refused (refused : (p.offer e).2 ≠ none) : (p.offer e).1 = p := by
  rcases offer_cases p e with ⟨-, answer⟩ | ⟨-, reason, answer⟩
  · rw [answer] at refused
    exact absurd rfl refused
  · rw [answer]

/-! ## Requests one after the other -/

theorem acceptsAll_cons :
    p.AcceptsAll (e :: requests) ↔ (p.offer e).2 = none ∧ (p.offer e).1.AcceptsAll requests := by
  unfold AcceptsAll
  rw [offerAll]
  exact List.forall_mem_cons

theorem accepted_cons :
    p.accepted (e :: requests) = if (p.offer e).2 = none then e :: (p.offer e).1.accepted requests
      else (p.offer e).1.accepted requests := by
  unfold accepted
  rw [offerAll, List.zip_cons_cons, List.filter_cons]
  cases (p.offer e).2 <;> rfl

/-- A plan's requests are accepted if they and the entries are not in each other's way. -/
theorem acceptsAll_iff : p.AcceptsAll requests ↔
    (∀ f ∈ p.entries, ∀ e ∈ requests, f.Apart p.slotPrefix e) ∧
      requests.Pairwise (Entry.Apart p.slotPrefix) := by
  induction requests generalizing p with
  | nil => simp [AcceptsAll, offerAll]
  | cons e rest ih =>
    rw [acceptsAll_cons, ih, offer_eq_none_iff, List.pairwise_cons]
    rcases offer_cases p e with ⟨apart, answer⟩ | ⟨objected, reason, answer⟩
    · rw [answer]
      simp only [List.mem_append, List.mem_singleton, List.forall_mem_cons]
      constructor
      · rintro ⟨-, others, pairwise⟩
        exact ⟨fun f mem => ⟨apart f mem, others f (.inl mem)⟩, others e (.inr rfl), pairwise⟩
      · rintro ⟨others, first, pairwise⟩
        refine ⟨apart, ?_, pairwise⟩
        rintro f (mem | rfl)
        · exact (others f mem).2
        · exact first
    · refine iff_of_false (fun all => objected all.1) fun all => objected fun f mem => ?_
      exact all.1 f mem e List.mem_cons_self

/-- A plan grows by the requests that it accepts, and no two of its entries get in each other's
way. -/
theorem offerAll_grown (apart : p.entries.Pairwise (Entry.Apart p.slotPrefix))
    (requests : List Entry) :
    (p.offerAll requests).1 = { p with entries := p.entries ++ p.accepted requests } ∧
      (p.entries ++ p.accepted requests).Pairwise (Entry.Apart p.slotPrefix) := by
  induction requests generalizing p with
  | nil => simpa [offerAll, accepted] using apart
  | cons e rest ih =>
    rw [offerAll, accepted_cons]
    rcases offer_cases p e with ⟨apart', answer⟩ | ⟨-, reason, answer⟩
    · have grown : (p.entries ++ [e]).Pairwise (Entry.Apart p.slotPrefix) := by
        rw [List.pairwise_append]
        refine ⟨apart, List.pairwise_singleton _ _, fun f mem g last => ?_⟩
        rw [List.mem_singleton.1 last]
        exact apart' f mem
      obtain ⟨plan, pairwise⟩ := @ih { p with entries := p.entries ++ [e] } grown
      rw [answer, if_pos rfl]
      rw [List.append_assoc] at pairwise plan
      exact ⟨plan, pairwise⟩
    · rw [answer, if_neg (Option.some_ne_none reason)]
      exact ih apart

/-! ## All names of a plan -/

/-- The names of native variables and those of host slots, as they are written in code. -/
def names (abi : Abi) (p : Plan) : List String :=
  (p.entries.map fun e => e.binding.native.render abi) ++
    p.entries.map fun e => e.binding.host.render abi

/-- Requests are not in each other's way if their nodes and names differ, and no name is another one
behind the prefix. -/
theorem pairwise_apart_iff {slotPrefix : String} :
    requests.Pairwise (Entry.Apart slotPrefix) ↔
      (requests.map (·.node.id)).Nodup ∧ (requests.map (·.binding.text)).Nodup ∧
        requests.Pairwise fun e f => e.binding.text ≠ slotPrefix ++ f.binding.text ∧
          f.binding.text ≠ slotPrefix ++ e.binding.text := by
  unfold List.Nodup
  rw [List.pairwise_map, List.pairwise_map]
  constructor
  · intro apart
    exact ⟨apart.imp Entry.Apart.node, apart.imp Entry.Apart.name, apart.imp Entry.Apart.slot⟩
  · rintro ⟨node, name, slot⟩
    exact ((node.and name).and slot).imp fun facts => ⟨facts.1.1, facts.1.2, facts.2⟩

theorem slotPrefix_ne_empty {abi : Abi} (sound : abi.fault? = none) : abi.slotPrefix ≠ "" := by
  intro empty
  unfold Abi.fault? at sound
  split at sound
  · cases sound
  · rw [empty] at sound
    cases sound

/-- Names and slots are told apart where the prefix is not empty. -/
theorem names_nodup {abi : Abi} (sound : abi.fault? = none)
    (apart : p.entries.Pairwise (Entry.Apart abi.slotPrefix)) : (p.names abi).Nodup := by
  obtain ⟨-, natives, -⟩ := pairwise_apart_iff.1 apart
  have slots : (p.entries.map fun e => abi.slotPrefix ++ e.binding.text).Nodup := by
    have prefixed := natives.map fun _ _ => (String.append_right_inj abi.slotPrefix).1
    rwa [List.map_map] at prefixed
  refine List.nodup_append.2 ⟨natives, slots, ?_⟩
  intro name mem slot mem' same
  obtain ⟨e, there, rfl⟩ := List.mem_map.1 mem
  obtain ⟨f, there', rfl⟩ := List.mem_map.1 mem'
  change e.binding.text = abi.slotPrefix ++ f.binding.text at same
  by_cases differ : e = f
  · subst differ
    have length := congrArg String.length same
    rw [String.length_append] at length
    apply slotPrefix_ne_empty sound
    rw [← String.length_eq_zero_iff]
    omega
  · have symm : Std.Symm (Entry.Apart abi.slotPrefix) := ⟨fun _ _ => Entry.Apart.symm⟩
    exact (apart.forall there there' differ).slot.1 same

/-- Requests to a fresh plan are all accepted exactly if their nodes are pairwise different, their
names are, and none is another's name behind the prefix of host slots; so the order of the requests
does not matter. A further request is judged by the accepted ones alone, and leaves them as they
are where it is refused. If the `Abi` has no fault, all native variables and host slots of the plan
have different names, whatever was asked of it. -/
theorem offerAll_named {stem : String} {abi : Abi} {fresh : Plan}
    (started : Plan.start stem abi = .ok fresh) (requests : List Entry) :
    (fresh.AcceptsAll requests ↔
      (requests.map (·.node.id)).Nodup ∧ (requests.map (·.binding.text)).Nodup ∧
        requests.Pairwise fun e f => e.binding.text ≠ abi.slotPrefix ++ f.binding.text ∧
          f.binding.text ≠ abi.slotPrefix ++ e.binding.text) ∧
      (∀ others, others.Perm requests → (fresh.AcceptsAll others ↔ fresh.AcceptsAll requests)) ∧
      (fresh.offerAll requests).1.entries = fresh.accepted requests ∧
      (∀ e, (((fresh.offerAll requests).1.offer e).2 = none ↔
          ∀ f ∈ fresh.accepted requests, f.Apart abi.slotPrefix e) ∧
        (((fresh.offerAll requests).1.offer e).2 ≠ none →
          ((fresh.offerAll requests).1.offer e).1.entries = fresh.accepted requests)) ∧
      (abi.fault? = none → ((fresh.offerAll requests).1.names abi).Nodup) := by
  obtain ⟨_, -, started⟩ := ok_of_bind started
  cases started
  have unhindered (requests : List Entry) : AcceptsAll ⟨stem, abi.slotPrefix, []⟩ requests ↔
      requests.Pairwise (Entry.Apart abi.slotPrefix) := by
    rw [acceptsAll_iff]
    exact and_iff_right fun f mem => absurd mem List.not_mem_nil
  obtain ⟨grown, apart⟩ :=
    offerAll_grown (p := ⟨stem, abi.slotPrefix, []⟩) List.Pairwise.nil requests
  rw [List.nil_append] at grown apart
  refine ⟨(unhindered requests).trans pairwise_apart_iff, ?_, ?_, ?_, ?_⟩
  · intro others perm
    rw [unhindered, unhindered]
    exact perm.pairwise_iff Entry.Apart.symm
  · rw [grown]
  · intro e
    rw [grown]
    refine ⟨offer_eq_none_iff, fun refused => ?_⟩
    rw [offer_of_refused refused]
  · intro sound
    rw [grown]
    exact names_nodup sound apart

/-- Each name is the slot of the one before it. -/
def slotChain : List Entry :=
  [⟨⟨0, .bare 0, none, .empty, none⟩, ⟨"x", rfl⟩, .sync⟩,
    ⟨⟨1, .bare 0, none, .empty, none⟩, ⟨"host_x", rfl⟩, .cleanup⟩,
    ⟨⟨2, .bare 0, none, .empty, none⟩, ⟨"host_host_x", rfl⟩, .sync⟩]

/-- The middle of the chain is refused, and what remains has four different names. -/
theorem slotChain_offerAll_named : ∃ fresh, Plan.start "r" .standard = .ok fresh ∧
    (fresh.offerAll slotChain).2.map (·.isSome) = [false, true, false] ∧
    ¬ fresh.AcceptsAll slotChain ∧ ¬ fresh.AcceptsAll slotChain.reverse ∧
    (fresh.offerAll slotChain).1.names .standard =
      ["x", "host_host_x", "host_x", "host_host_host_x"] ∧
    ((fresh.offerAll slotChain).1.names .standard).Nodup := by
  have started : Plan.start "r" .standard = .ok ⟨"r", "host_", []⟩ := rfl
  obtain ⟨accepts, order, -, -, different⟩ := offerAll_named started slotChain
  have refused : ¬ AcceptsAll ⟨"r", "host_", []⟩ slotChain := by
    intro all
    obtain ⟨-, -, pairwise⟩ := accepts.1 all
    exact (List.rel_of_pairwise_cons pairwise List.mem_cons_self).2 rfl
  refine ⟨_, started, rfl, refused, ?_, rfl, different (by decide +kernel)⟩
  rw [order _ (List.reverse_perm _)]
  exact refused

end Plan

end HostBridge
