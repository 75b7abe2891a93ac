import Mathlib.Logic.Relation
import Mathlib.Data.List.Basic

/-!
Acyclic relations. An edge keeps a relation acyclic exactly when it does not close a path, every
nonempty list has a member that no other member leads to, going back from a node comes to an end,
and a list in which nothing leads back has every member after those that lead to it.
-/

namespace RegionLayout

open Relation

variable {α : Type}

/-- Nothing leads back to itself. -/
def Acyclic (edge : α → α → Prop) : Prop :=
  ∀ node, ¬ TransGen edge node node

namespace Acyclic

variable {edge other : α → α → Prop}

theorem mono (hacyclic : Acyclic other)
    (hsub : ∀ source target, edge source target → other source target) : Acyclic edge :=
  fun node hcycle => hacyclic node (TransGen.mono hsub _ _ hcycle)

theorem congr (hsame : ∀ source target, edge source target ↔ other source target) :
    Acyclic edge ↔ Acyclic other :=
  ⟨fun hacyclic => hacyclic.mono fun source target => (hsame source target).mpr,
    fun hacyclic => hacyclic.mono fun source target => (hsame source target).mp⟩

theorem irreflexive (hacyclic : Acyclic edge) (node : α) : ¬ edge node node :=
  fun hloop => hacyclic node (.single hloop)

theorem of_rank (rank : α → Nat)
    (hgrows : ∀ source target, edge source target → rank source < rank target) :
    Acyclic edge := by
  have hpath : ∀ {source target}, TransGen edge source target → rank source < rank target := by
    intro source target hpath
    induction hpath with
    | single hstep => exact hgrows _ _ hstep
    | tail _ hstep ih => exact Nat.lt_trans ih (hgrows _ _ hstep)
  exact fun node hcycle => Nat.lt_irrefl _ (hpath hcycle)

end Acyclic

/-! One edge more. -/

theorem transGen_insert {edge : α → α → Prop} {prerequisite dependent source target : α}
    (hpath : TransGen (fun first second => edge first second ∨
      first = prerequisite ∧ second = dependent) source target) :
    TransGen edge source target ∨
      ReflTransGen edge source prerequisite ∧ ReflTransGen edge dependent target := by
  induction hpath with
  | single hstep =>
      rcases hstep with hold | ⟨rfl, rfl⟩
      · exact .inl (.single hold)
      · exact .inr ⟨.refl, .refl⟩
  | tail _ hstep ih =>
      rcases hstep with hold | ⟨rfl, rfl⟩
      · rcases ih with hold' | ⟨hbefore, hafter⟩
        · exact .inl (hold'.tail hold)
        · exact .inr ⟨hbefore, hafter.tail hold⟩
      · rcases ih with hold' | ⟨hbefore, _⟩
        · exact .inr ⟨hold'.to_reflTransGen, .refl⟩
        · exact .inr ⟨hbefore, .refl⟩

theorem Acyclic.insert {edge : α → α → Prop} {prerequisite dependent : α}
    (hacyclic : Acyclic edge) (hopen : ¬ ReflTransGen edge dependent prerequisite) :
    Acyclic (fun source target => edge source target ∨
      source = prerequisite ∧ target = dependent) := by
  intro node hcycle
  rcases transGen_insert hcycle with hold | ⟨hbefore, hafter⟩
  · exact hacyclic node hold
  · exact hopen (hafter.trans hbefore)

/-! Members that nothing else in the list leads to. -/

theorem Acyclic.exists_minimal {edge : α → α → Prop} (hacyclic : Acyclic edge) :
    ∀ {members : List α}, members ≠ [] →
      ∃ node ∈ members, ∀ other ∈ members, ¬ TransGen edge other node
  | [], hne => absurd rfl hne
  | [node], _ => ⟨node, by simp, by
      intro other hother
      obtain rfl := List.mem_singleton.mp hother
      exact hacyclic other⟩
  | head :: next :: rest, _ => by
      obtain ⟨node, hnode, hminimal⟩ :=
        hacyclic.exists_minimal (List.cons_ne_nil next rest)
      by_cases hhead : TransGen edge head node
      · refine ⟨head, by simp, ?_⟩
        intro other hother hpath
        rcases List.mem_cons.mp hother with rfl | hother
        · exact hacyclic other hpath
        · exact hminimal other hother (hpath.trans hhead)
      · refine ⟨node, List.mem_cons_of_mem _ hnode, ?_⟩
        intro other hother
        rcases List.mem_cons.mp hother with rfl | hother
        · exact hhead
        · exact hminimal other hother

theorem Acyclic.induction {edge : α → α → Prop} (hacyclic : Acyclic edge) {members : List α}
    (hmembers : ∀ source target, edge source target → target ∈ members) {motive : α → Prop}
    (hstep : ∀ node, (∀ source, edge source node → motive source) → motive node) (node : α) :
    motive node := by
  classical
  have houtside : ∀ other, other ∉ members → motive other := fun other hother =>
    hstep other fun source hedge => absurd (hmembers source other hedge) hother
  -- Of the members that are left out one has no other before it.
  by_contra hfails
  have hmem : node ∈ members := by
    by_contra hother
    exact hfails (houtside node hother)
  have hne : members.filter (fun other => ¬ motive other) ≠ [] :=
    List.ne_nil_of_mem (List.mem_filter.mpr ⟨hmem, decide_eq_true hfails⟩)
  obtain ⟨least, hleast, hminimal⟩ := hacyclic.exists_minimal hne
  simp only [List.mem_filter, decide_eq_true_eq] at hleast hminimal
  refine hleast.2 (hstep least fun source hedge => ?_)
  by_contra hsource
  have hinside : source ∈ members := by
    by_contra hother
    exact hsource (houtside source hother)
  exact hminimal source ⟨hinside, hsource⟩ (.single hedge)

/-- Going back from a node ends at one of some kind that no other of that kind leads to. -/
theorem Acyclic.exists_first {edge : α → α → Prop} (hacyclic : Acyclic edge) (members : List α)
    (hmembers : ∀ source target, edge source target → target ∈ members) {kind : α → Prop}
    {node : α} (hbefore : ∃ other, kind other ∧ ReflTransGen edge other node) :
    ∃ first, kind first ∧ ReflTransGen edge first node ∧
      ∀ other, kind other → ¬ TransGen edge other first := by
  refine hacyclic.induction (motive := fun node =>
    (∃ other, kind other ∧ ReflTransGen edge other node) → ∃ first, kind first ∧
      ReflTransGen edge first node ∧ ∀ other, kind other → ¬ TransGen edge other first)
    hmembers (fun node ih hbefore => ?_) node hbefore
  by_cases hearlier : ∃ other, kind other ∧ TransGen edge other node
  · obtain ⟨other, hother, hpath⟩ := hearlier
    obtain ⟨source, hsource, hedge⟩ := TransGen.tail'_iff.mp hpath
    obtain ⟨first, hfirst, hreaches, hnone⟩ := ih source hedge ⟨other, hother, hsource⟩
    exact ⟨first, hfirst, hreaches.tail hedge, hnone⟩
  · obtain ⟨other, hother, hpath⟩ := hbefore
    have hnone : ∀ other, kind other → ¬ TransGen edge other node :=
      fun other hother hpath => hearlier ⟨other, hother, hpath⟩
    obtain rfl : node = other :=
      (reflTransGen_iff_eq_or_transGen.mp hpath).resolve_right (hnone other hother)
    exact ⟨node, hother, .refl, hnone⟩

/-- In a list in which nothing leads back, what leads to a member comes before it. -/
theorem idxOf_lt_of_pairwise [DecidableEq α] {leads : α → α → Prop} {members : List α}
    (hordered : members.Pairwise fun earlier later => ¬ leads later earlier) {first second : α}
    (hfirst : first ∈ members) (hsecond : second ∈ members) (hself : ¬ leads first first)
    (hleads : leads first second) : members.idxOf first < members.idxOf second := by
  rcases Nat.lt_trichotomy (members.idxOf first) (members.idxOf second) with
    hless | hsame | hgreater
  · exact hless
  · rw [(List.idxOf_inj hfirst).mp hsame] at hself hleads
    exact absurd hleads hself
  · have hlate := List.pairwise_iff_getElem.mp hordered _ _ (List.idxOf_lt_length_of_mem hsecond)
      (List.idxOf_lt_length_of_mem hfirst) hgreater
    rw [List.getElem_idxOf, List.getElem_idxOf] at hlate
    exact absurd hleads hlate

end RegionLayout
