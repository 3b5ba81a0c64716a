import HostBridge.Proofs.Region.Spelling

/-!
# Names that shadow the host

A plan compares the names that it is asked for with each other, and not with the symbols of the host.
A region of built-in values leaves those alone exactly if its body does and no value is bound to a
reserved word, one that is a symbol of the host or becomes one behind the prefix of the slots
(`Plan.build_unshadowed`). Reserved words are accepted like all others (`Plan.bind_reserved`).
-/

namespace HostBridge

/-- The word or its host slot is named like a symbol of the host. -/
def Abi.Reserves (abi : Abi) (word : String) : Prop :=
  word ∈ abi.hostSymbols ∨ abi.slotName word ∈ abi.hostSymbols

/-- No native variable and no host slot of the code is named like a symbol of the host. -/
def Block.Unshadowed (abi : Abi) (b : Block) : Prop :=
  ∀ name ∈ b.names abi, name ∉ abi.hostSymbols

/-- Words that become symbols of the standard host behind the prefix of its slots. -/
def Abi.standardTails : List String :=
  ["set_type_error", "is_int64", "is_float64", "is_bool", "as_int64", "as_float64", "as_bool",
    "from_int64", "from_float64", "from_bool"]

/-- The reserved words of the standard host. A host slot cannot be named like the three symbols in
capital letters, which do not begin like one. -/
theorem Abi.standard_reserves_iff {word : String} : Abi.standard.Reserves word ↔
    word ∈ ["NULL", "HOST_XINCREF", "HOST_XDECREF"] ++ standardTails.map ("host_" ++ ·) ++
      standardTails := by
  have symbols : Abi.standard.hostSymbols =
      ["NULL", "HOST_XINCREF", "HOST_XDECREF"] ++ standardTails.map ("host_" ++ ·) := by
    decide +kernel
  have inner : "host_" ++ word ∈ standardTails.map ("host_" ++ ·) ↔ word ∈ standardTails :=
    List.mem_map_of_injective fun _ _ => (String.append_right_inj "host_").1
  have outer : "host_" ++ word ∉ ["NULL", "HOST_XINCREF", "HOST_XDECREF"] := by
    intro mem
    have initial (s : String) (same : "host_" ++ word = s) : s.toList.head? = some 'h' := by
      rw [← same, String.toList_append]
      rfl
    simp only [List.mem_cons, List.not_mem_nil, or_false] at mem
    rcases mem with same | same | same <;> cases initial _ same
  unfold Reserves slotName
  rw [symbols, List.mem_append (t := standardTails)]
  refine or_congr_right ?_
  rw [List.mem_append]
  exact (or_iff_right outer).trans inner

namespace Plan

variable {p : Plan} {abi : Abi}

/-- Only reserved words and the body can shadow the host. -/
theorem Assembly.unshadowed_iff {body : Block} {region : Region} {rungs : List Rung}
    (assembly : p.Assembly body region rungs) (builtIn : ∀ e ∈ p.entries, e.node.IsBuiltIn) :
    region.code.Unshadowed abi ↔
      (∀ e ∈ p.entries, ¬abi.Reserves e.binding.text) ∧ body.Unshadowed abi := by
  unfold Block.Unshadowed
  simp only [assembly.mem_names builtIn, Plan.mem_names, or_imp, forall_and]
  refine and_congr_left fun _ => ?_
  constructor
  · intro apart e mem
    rintro (native | slot)
    · exact apart _ ⟨e, mem, .inl rfl⟩ native
    · exact apart _ ⟨e, mem, .inr rfl⟩ slot
  · rintro free name ⟨e, mem, rfl | rfl⟩ symbol
    · exact free e mem (.inl symbol)
    · exact free e mem (.inr symbol)

/-- Any reserved word is accepted, and shadows the host. -/
theorem bind_reserved {stem : String} {fresh : Plan} (started : Plan.start stem abi = .ok fresh)
    {n : Node} (builtIn : n.IsBuiltIn) {b : Binding} (reserved : abi.Reserves b.text)
    (terminal : Terminal) :
    ∃ q region, fresh.bind n b terminal = .ok q ∧ q.build (fun _ => []) = .ok region ∧
      ¬region.code.Unshadowed abi := by
  have grown : Grown abi fresh := .start started
  obtain ⟨_, -, same⟩ := ok_of_bind started
  cases same
  have bound : Plan.bind ⟨stem, abi.slotPrefix, []⟩ n b terminal =
      .ok ⟨stem, abi.slotPrefix, [⟨n, b, terminal⟩]⟩ := rfl
  have all (e : Entry) (mem : e ∈ [(⟨n, b, terminal⟩ : Entry)]) : e.node.IsBuiltIn := by
    rw [List.mem_singleton.1 mem]
    exact builtIn
  obtain ⟨region, built⟩ := (grown.bind bound).exists_build all (fun _ => []) fun _ => rfl
  obtain ⟨rungs, -, assembly⟩ := assembly_of_build built
  refine ⟨_, region, bound, built, fun unshadowed => ?_⟩
  exact ((assembly.unshadowed_iff all).1 unshadowed).1 _ (List.mem_singleton_self _) reserved

/-- A handle whose host slot is named like the host's check for integers, and an integer. -/
def shadowingCheck : Plan :=
  ⟨"r", "host_",
    [⟨⟨0, .handle 0, none, .empty, none⟩, ⟨"is_int64", rfl⟩, .sync⟩,
      ⟨⟨1, .scalar .int64 1, none, .empty, none⟩, ⟨"m", rfl⟩, .sync⟩]⟩

end Plan

end HostBridge
