import Mathlib.Data.List.Induction
import RegionLayout.Proofs.Graph.Listing

/-!
Prerequisite graphs read off their histories. A node is there if it entered and did not leave since,
an edge if it was accepted and not lost since; neighbours stand in the order in which their edges
arose. Nothing a graph answers depends on the slots that its nodes happened to take.
-/

namespace RegionLayout.Graph

open Relation

/-! Moments. The moment of an edit is the number of edits before it. -/

section Since

variable {ε : Type} {happens : List ε → ε → Prop} {undoes : ε → Prop} {history : List ε}
  {edit : ε} {moment : Nat}

/-- Something happened at a moment and was not undone since. -/
def Since (happens : List ε → ε → Prop) (undoes : ε → Prop) (history : List ε) (moment : Nat) :
    Prop :=
  ∃ earlier edit later, history = earlier ++ edit :: later ∧ earlier.length = moment ∧
    happens earlier edit ∧ ∀ other ∈ later, ¬ undoes other

theorem since_nil : ¬ Since happens undoes [] moment := by
  rintro ⟨earlier, edit, later, hsplit, _⟩
  simp at hsplit

theorem since_snoc : Since happens undoes (history ++ [edit]) moment ↔
    moment = history.length ∧ happens history edit ∨
      Since happens undoes history moment ∧ ¬ undoes edit := by
  constructor
  · rintro ⟨earlier, now, later, hsplit, hmoment, hhappens, hkept⟩
    rcases List.eq_nil_or_concat later with rfl | ⟨between, last, rfl⟩
    · obtain ⟨rfl, hedit⟩ := List.append_inj' hsplit rfl
      obtain rfl := List.singleton_inj.mp hedit
      exact .inl ⟨hmoment.symm, hhappens⟩
    · rw [List.concat_eq_append] at hsplit hkept
      rw [← List.cons_append, ← List.append_assoc] at hsplit
      obtain ⟨rfl, hedit⟩ := List.append_inj' hsplit rfl
      obtain rfl := List.singleton_inj.mp hedit
      refine .inr ⟨⟨earlier, now, between, rfl, hmoment, hhappens, fun other hother => ?_⟩, ?_⟩
      · exact hkept other (List.mem_append_left _ hother)
      · exact hkept edit (List.mem_append_right _ List.mem_cons_self)
  · rintro (⟨rfl, hhappens⟩ | ⟨⟨earlier, now, later, rfl, hmoment, hhappens, hkept⟩, hedit⟩)
    · exact ⟨history, edit, [], rfl, rfl, hhappens, fun _ hother => nomatch hother⟩
    · refine ⟨earlier, now, later ++ [edit], by simp, hmoment, hhappens, fun other hother => ?_⟩
      rcases List.mem_append.mp hother with hlater | hlast
      · exact hkept other hlater
      · exact List.mem_singleton.mp hlast ▸ hedit

theorem Since.lt (hsince : Since happens undoes history moment) : moment < history.length := by
  obtain ⟨earlier, edit, later, rfl, rfl, _⟩ := hsince
  simp

theorem Since.imp {other : List ε → ε → Prop}
    (himp : ∀ earlier edit, happens earlier edit → other earlier edit)
    (hsince : Since happens undoes history moment) : Since other undoes history moment := by
  obtain ⟨earlier, edit, later, hsplit, hmoment, hhappens, hkept⟩ := hsince
  exact ⟨earlier, edit, later, hsplit, hmoment, himp _ _ hhappens, hkept⟩

theorem exists_since_snoc : (∃ moment, Since happens undoes (history ++ [edit]) moment) ↔
    happens history edit ∨ (∃ moment, Since happens undoes history moment) ∧ ¬ undoes edit := by
  simp only [since_snoc, exists_or, exists_and_right, exists_eq, true_and]

end Since

variable {α : Type} [DecidableEq α]

/-! What edits do to a node, and to an edge. -/

section Happenings

variable (earlier : List (GraphEdit α)) (node prerequisite dependent : α)

def Accepts : Prop :=
  ∃ changed, (after earlier).declare prerequisite dependent = .ok changed

def Enters (earlier : List (GraphEdit α)) : GraphEdit α → Prop
  | .add added => added = node
  | .declare prerequisite dependent =>
    (prerequisite = node ∨ dependent = node) ∧ Accepts earlier prerequisite dependent
  | .remove _ => False
  | .revoke _ _ => False

def Leaves (edit : GraphEdit α) : Prop :=
  edit = .remove node

def Connects (edit : GraphEdit α) : Prop :=
  edit = .declare prerequisite dependent ∧ Accepts earlier prerequisite dependent

def Severs (edit : GraphEdit α) : Prop :=
  edit = .revoke prerequisite dependent ∨ edit = .remove prerequisite ∨ edit = .remove dependent

end Happenings

section History

variable (edits : List (GraphEdit α)) (node prerequisite dependent : α)

/-- The node was added, by itself or at an end of an accepted edge, and not removed since. -/
def Present : Prop :=
  ∃ moment, Since (Enters node) (Leaves node) edits moment

/-- The edge was accepted, and since then neither revoked nor lost with one of its ends. -/
def Survives : Prop :=
  ∃ moment, Since (Connects · prerequisite dependent) (Severs prerequisite dependent) edits moment

/-- The edge was accepted at this moment when it did not exist, and has existed ever since. -/
def Arose (moment : Nat) : Prop :=
  Since (fun earlier edit => Connects earlier prerequisite dependent edit ∧
    ¬ Survives earlier prerequisite dependent) (Severs prerequisite dependent) edits moment

end History

variable {edits : List (GraphEdit α)} {edit : GraphEdit α} {prerequisite dependent : α}
  {moment : Nat}

theorem not_severs_of_connects (hconnects : Connects edits prerequisite dependent edit) :
    ¬ Severs prerequisite dependent edit := by
  simp [Severs, hconnects.1]

theorem not_severs_of_survives (hsurvives : Survives (edits ++ [edit]) prerequisite dependent) :
    ¬ Severs prerequisite dependent edit := by
  rcases exists_since_snoc.mp hsurvives with hconnects | ⟨_, hkept⟩
  · exact not_severs_of_connects hconnects
  · exact hkept

theorem Arose.snoc (harose : Arose edits prerequisite dependent moment)
    (hsurvives : Survives (edits ++ [edit]) prerequisite dependent) :
    Arose (edits ++ [edit]) prerequisite dependent moment :=
  since_snoc.mpr (.inr ⟨harose, not_severs_of_survives hsurvives⟩)

theorem arose_length (hnew : ¬ Survives edits prerequisite dependent)
    (hsurvives : Survives (edits ++ [edit]) prerequisite dependent) :
    Arose (edits ++ [edit]) prerequisite dependent edits.length := by
  rcases exists_since_snoc.mp hsurvives with hconnects | ⟨hold, _⟩
  · exact since_snoc.mpr (.inl ⟨rfl, hconnects, hnew⟩)
  · exact absurd hold hnew

theorem survives_iff_exists_arose :
    Survives edits prerequisite dependent ↔
      ∃ moment, Arose edits prerequisite dependent moment := by
  constructor
  · intro hsurvives
    induction edits using List.reverseRecOn with
    | nil => exact absurd hsurvives.choose_spec since_nil
    | append_singleton edits edit ih =>
        by_cases hold : Survives edits prerequisite dependent
        · obtain ⟨moment, harose⟩ := ih hold
          exact ⟨moment, harose.snoc hsurvives⟩
        · exact ⟨_, arose_length hold hsurvives⟩
  · rintro ⟨moment, harose⟩
    exact ⟨moment, harose.imp fun _ _ => And.left⟩

/-! The graph of a history. -/

theorem after_snoc (edits : List (GraphEdit α)) (edit : GraphEdit α) :
    after (edits ++ [edit]) = (after edits).perform edit := by
  rw [after, List.foldl_append, List.foldl_cons, List.foldl_nil, after]

theorem has_after_iff {node : α} : (after edits).Has node ↔ Present edits node := by
  induction edits using List.reverseRecOn with
  | nil =>
      refine iff_of_false ?_ fun hpresent => since_nil hpresent.choose_spec
      rintro ⟨place, slot, hslot, _⟩
      simp [after, empty, slot?] at hslot
  | append_singleton edits edit ih =>
      have hsound := sound_after edits
      rw [after_snoc, Present, exists_since_snoc, ← Present, ← ih]
      cases edit with
      | add added =>
          obtain ⟨_, hadds⟩ := exists_addsNode_addNode hsound added
          rw [perform, hadds.has_iff]
          simp [Enters, Leaves, or_comm, eq_comm]
      | remove removed =>
          rw [perform, has_removeNode hsound]
          simp [Enters, Leaves, eq_comm]
      | declare prerequisite dependent =>
          rw [perform]
          cases hdeclared : (after edits).declare prerequisite dependent with
          | error cause => simp [Enters, Leaves, Accepts, hdeclared]
          | ok changed =>
              simp only [(addsEdge_declare hsound hdeclared).has_iff]
              simp [Enters, Leaves, Accepts, hdeclared, or_comm, eq_comm]
      | revoke prerequisite dependent =>
          rw [perform, (keepsNodes_revoke prerequisite dependent).has_iff]
          simp [Enters, Leaves]

theorem edge_after_iff :
    (after edits).Edge prerequisite dependent ↔ Survives edits prerequisite dependent := by
  induction edits using List.reverseRecOn with
  | nil =>
      refine iff_of_false ?_ fun hsurvives => since_nil hsurvives.choose_spec
      rintro ⟨place, _, ⟨slot, hslot, _⟩, _⟩
      simp [after, empty, slot?] at hslot
  | append_singleton edits edit ih =>
      have hsound := sound_after edits
      rw [after_snoc, Survives, exists_since_snoc, ← Survives, ← ih]
      cases edit with
      | add added =>
          obtain ⟨_, hadds⟩ := exists_addsNode_addNode hsound added
          rw [perform, hadds.edge_iff hsound]
          simp [Connects, Severs]
      | remove removed =>
          rw [perform, edge_removeNode hsound]
          simp [Connects, Severs, eq_comm]
      | declare first second =>
          rw [perform]
          cases hdeclared : (after edits).declare first second with
          | error cause =>
              have hrefused : ¬ Connects edits prerequisite dependent (.declare first second) := by
                rintro ⟨heq, changed, haccepted⟩
                obtain ⟨rfl, rfl⟩ := GraphEdit.declare.inj heq
                simp [hdeclared] at haccepted
              simp [hrefused, Severs]
          | ok changed =>
              have hconnects : Connects edits prerequisite dependent (.declare first second) ↔
                  prerequisite = first ∧ dependent = second := by
                constructor
                · rintro ⟨heq, _⟩
                  obtain ⟨rfl, rfl⟩ := GraphEdit.declare.inj heq
                  exact ⟨rfl, rfl⟩
                · rintro ⟨rfl, rfl⟩
                  exact ⟨rfl, changed, hdeclared⟩
              simp [(addsEdge_declare hsound hdeclared).edge_iff, hconnects, Severs, or_comm]
      | revoke first second =>
          rw [perform, edge_revoke hsound]
          simp [Connects, Severs, eq_comm]

/-! The order of neighbours. -/

/-- The edge between a node and a neighbour arose before that to another. -/
def Precedes (edits : List (GraphEdit α)) (direction : Direction) (node first second : α) : Prop :=
  ∃ moment later, moment < later ∧
    Arose edits (direction.far first node) (direction.near first node) moment ∧
    Arose edits (direction.far second node) (direction.near second node) later

variable {direction : Direction} {node neighbour : α}

theorem mem_listed_after_iff : neighbour ∈ (after edits).listed direction node ↔
    Survives edits (direction.far neighbour node) (direction.near neighbour node) := by
  rw [mem_listed_iff (sound_after edits), edge_after_iff]

theorem Precedes.snoc {first second : α} (hprecedes : Precedes edits direction node first second)
    (hfirst : first ∈ (after (edits ++ [edit])).listed direction node)
    (hsecond : second ∈ (after (edits ++ [edit])).listed direction node) :
    Precedes (edits ++ [edit]) direction node first second := by
  obtain ⟨moment, later, hless, hone, hother⟩ := hprecedes
  exact ⟨moment, later, hless, hone.snoc (mem_listed_after_iff.mp hfirst),
    hother.snoc (mem_listed_after_iff.mp hsecond)⟩

theorem listed_after_ordered (edits : List (GraphEdit α)) (direction : Direction) (node : α) :
    ((after edits).listed direction node).Pairwise (Precedes edits direction node) := by
  induction edits using List.reverseRecOn with
  | nil => exact List.Pairwise.nil
  | append_singleton edits edit ih =>
      have hstep := listed_perform (sound_after edits) direction edit node
      rw [← after_snoc] at hstep
      rcases hstep with hkept | ⟨prerequisite, dependent, rfl, hnew, rfl, hgrown⟩
      · exact (ih.sublist hkept).imp_of_mem fun hfirst hsecond hprecedes =>
          hprecedes.snoc hfirst hsecond
      · rw [edge_after_iff] at hnew
        refine List.Pairwise.imp_of_mem (fun hfirst hsecond hpair => hpair hfirst hsecond)
          (List.Pairwise.sublist hgrown (List.pairwise_append.mpr
            ⟨ih.imp fun hprecedes => hprecedes.snoc, List.pairwise_singleton _ _, ?_⟩))
        intro first hfirst added hadded hkept hlisted
        obtain rfl := List.mem_singleton.mp hadded
        -- The moments of the other edges stay, and the new edge arises after all of them.
        obtain ⟨moment, harose⟩ := survives_iff_exists_arose.mp (mem_listed_after_iff.mp hfirst)
        refine ⟨moment, edits.length, Since.lt harose,
          harose.snoc (mem_listed_after_iff.mp hkept), ?_⟩
        refine arose_length ?_ (mem_listed_after_iff.mp hlisted)
        simpa using hnew

/-! What a graph answers. -/

/-- The answers of a graph are those of a history. -/
structure Recounts (edits : List (GraphEdit α)) (graph : Graph α) : Prop where
  contains_iff : ∀ node, graph.contains node = true ↔ Present edits node
  mem_prerequisites_iff : ∀ prerequisite dependent,
    prerequisite ∈ graph.prerequisites dependent ↔ Survives edits prerequisite dependent
  prerequisites_nodup : ∀ dependent, (graph.prerequisites dependent).Nodup
  prerequisites_ordered : ∀ dependent, (graph.prerequisites dependent).Pairwise fun first second =>
    ∃ moment later, moment < later ∧ Arose edits first dependent moment ∧
      Arose edits second dependent later
  mem_dependents_iff : ∀ prerequisite dependent,
    dependent ∈ graph.dependents prerequisite ↔ Survives edits prerequisite dependent
  dependents_nodup : ∀ prerequisite, (graph.dependents prerequisite).Nodup
  dependents_ordered : ∀ prerequisite, (graph.dependents prerequisite).Pairwise fun first second =>
    ∃ moment later, moment < later ∧ Arose edits prerequisite first moment ∧
      Arose edits prerequisite second later
  nodeCount : ∃ nodes : List α, nodes.Nodup ∧ (∀ node, node ∈ nodes ↔ Present edits node) ∧
    graph.nodeCount = nodes.length
  edgeCount : ∃ edges : List (α × α), edges.Nodup ∧
    (∀ prerequisite dependent,
      (prerequisite, dependent) ∈ edges ↔ Survives edits prerequisite dependent) ∧
    graph.edgeCount = edges.length
  isSource_iff : ∀ node, graph.isSource node = true ↔
    Present edits node ∧ ∀ prerequisite, ¬ Survives edits prerequisite node
  addNode_iff : ∀ node, (graph.addNode node).1 = true ↔ ¬ Present edits node
  removeNode_iff : ∀ node, (graph.removeNode node).1 = true ↔ Present edits node
  revoke_iff : ∀ prerequisite dependent,
    (graph.revoke prerequisite dependent).1 = true ↔ Survives edits prerequisite dependent
  declare_iff : ∀ prerequisite dependent,
    (∃ changed, graph.declare prerequisite dependent = .ok changed) ↔
      ¬ ReflTransGen (Survives edits) dependent prerequisite

/-- Whatever slots were vacated and filled again, a graph answers from its history. -/
theorem after_recounts (edits : List (GraphEdit α)) : Recounts edits (after edits) where
  contains_iff node := by
    rw [Graph.contains_iff (sound_after edits), has_after_iff]
  mem_prerequisites_iff prerequisite dependent := by
    rw [prerequisites_eq]
    exact mem_listed_after_iff
  prerequisites_nodup dependent := by
    rw [prerequisites_eq]
    exact nodup_listed (sound_after edits) _ dependent
  prerequisites_ordered dependent := by
    rw [prerequisites_eq]
    exact listed_after_ordered edits .prerequisites dependent
  mem_dependents_iff prerequisite dependent := by
    rw [dependents_eq]
    exact mem_listed_after_iff
  dependents_nodup prerequisite := by
    rw [dependents_eq]
    exact nodup_listed (sound_after edits) _ prerequisite
  dependents_ordered prerequisite := by
    rw [dependents_eq]
    exact listed_after_ordered edits .dependents prerequisite
  nodeCount := ⟨_, nodup_nodes (sound_after edits),
    fun _ => mem_nodes_iff.trans has_after_iff, nodeCount_eq (sound_after edits)⟩
  edgeCount := ⟨_, nodup_edges (sound_after edits),
    fun _ _ => (mem_edges_iff (sound_after edits)).trans edge_after_iff,
    edgeCount_eq (sound_after edits)⟩
  isSource_iff node := by
    simp only [Graph.isSource_iff (sound_after edits), has_after_iff, edge_after_iff]
  addNode_iff node := by
    rw [addNode_fst_iff (sound_after edits), has_after_iff]
  removeNode_iff node := by
    rw [removeNode_fst_iff (sound_after edits), has_after_iff]
  revoke_iff prerequisite dependent := by
    rw [revoke_fst_iff (sound_after edits), edge_after_iff]
  declare_iff prerequisite dependent := by
    have hedge : (after edits).Edge = Survives edits := funext₂ fun _ _ => propext edge_after_iff
    rw [exists_declare_iff (sound_after edits), hedge]

example : (after [.declare 1 3, .declare 2 3, .revoke 1 3, .declare 1 3,
    .declare 2 3]).prerequisites 3 = [2, 1] := by decide

end RegionLayout.Graph
