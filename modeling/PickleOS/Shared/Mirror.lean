import Mathlib.Data.List.Nodup
import Mathlib.Data.Set.Insert

set_option autoImplicit false

/-!
# A registry and a copy of it

Two queues of notices lead from a registry to a copy: one of the keys that are new, and one of those
that are gone.
-/

namespace Shared

variable {κ : Type}

/-- `coming` are the keys in the copy and on their way there, and `going` the notices of keys that
left the registry. `lostNew` and `lostGone` are the keys whose notices went elsewhere. -/
structure Mirror (used registered : Set κ) (coming copy going lostNew lostGone : List κ) : Prop where
  once : coming.Nodup
  seen : ∀ k ∈ coming, k ∈ used
  known : registered ⊆ used
  -- A key is never registered again.
  gone : ∀ k ∈ going, k ∈ used ∧ k ∉ registered
  shown : ∀ k ∈ registered, k ∈ coming ∨ k ∈ lostNew
  hidden : ∀ k ∈ copy, k ∈ registered ∨ k ∈ going ∨ k ∈ lostGone

namespace Mirror

variable {used used' registered registered' : Set κ}
    {coming coming' copy copy' going going' lostNew lostGone : List κ} {key : κ}

theorem empty (used : Set κ) : Mirror used ∅ [] [] [] [] [] where
  once := List.nodup_nil
  seen _ member := by cases member
  known := Set.empty_subset used
  gone _ member := by cases member
  shown _ member := by cases member
  hidden _ member := by cases member

theorem perm (mirror : Mirror used registered coming copy going lostNew lostGone) (same : coming'.Perm coming)
    (copied : copy'.Perm copy) : Mirror used registered coming' copy' going lostNew lostGone where
  once := same.nodup_iff.mpr mirror.once
  seen k member := mirror.seen k (same.mem_iff.mp member)
  known := mirror.known
  gone := mirror.gone
  shown k here := (mirror.shown k here).imp_left same.mem_iff.mpr
  hidden k member := mirror.hidden k (copied.mem_iff.mp member)

theorem register (mirror : Mirror used registered coming copy going lostNew lostGone) (fresh : key ∉ used) :
    Mirror (insert key used) (insert key registered) (key :: coming) copy going lostNew lostGone where
  once := List.nodup_cons.mpr ⟨fun member => fresh (mirror.seen key member), mirror.once⟩
  seen k member := by
    rcases List.mem_cons.mp member with rfl | old
    · exact Set.mem_insert k used
    · exact Set.mem_insert_of_mem key (mirror.seen k old)
  known := Set.insert_subset_insert mirror.known
  gone k member := by
    obtain ⟨seen, gone⟩ := mirror.gone k member
    refine ⟨Set.mem_insert_of_mem key seen, ?_⟩
    rintro (rfl | here)
    · exact fresh seen
    · exact gone here
  shown k here := by
    rcases here with rfl | here
    · exact .inl (.head _)
    · exact (mirror.shown k here).imp_left (.tail key)
  hidden k member := (mirror.hidden k member).imp_left (Set.mem_insert_of_mem key)

theorem unregister (mirror : Mirror used registered coming copy going lostNew lostGone) {keys : List κ}
    (were : ∀ k ∈ keys, k ∈ registered) :
    Mirror used { k | k ∈ registered ∧ k ∉ keys } coming copy (going ++ keys) lostNew lostGone where
  once := mirror.once
  seen := mirror.seen
  known _ here := mirror.known here.1
  gone k member := by
    rcases List.mem_append.mp member with old | new
    · obtain ⟨seen, gone⟩ := mirror.gone k old
      exact ⟨seen, fun here => gone here.1⟩
    · exact ⟨mirror.known (were k new), fun here => here.2 new⟩
  shown k here := mirror.shown k here.1
  hidden k member := by
    rcases mirror.hidden k member with here | noticed | lost
    · by_cases now : k ∈ keys
      · exact .inr (.inl (List.mem_append_right going now))
      · exact .inl ⟨here, now⟩
    · exact .inr (.inl (List.mem_append_left keys noticed))
    · exact .inr (.inr lost)

theorem add (mirror : Mirror used registered coming copy going lostNew lostGone) (here : key ∈ registered) :
    Mirror used registered coming (key :: copy) going lostNew lostGone :=
  { mirror with
    hidden := by
      intro k member
      rcases List.mem_cons.mp member with rfl | old
      · exact .inl here
      · exact mirror.hidden k old }

theorem forget (mirror : Mirror used registered (key :: coming) copy going lostNew lostGone)
    (gone : key ∉ registered)
    (fewer : copy' ⊆ copy) : Mirror used registered coming copy' going lostNew lostGone where
  once := (List.nodup_cons.mp mirror.once).2
  seen k member := mirror.seen k (.tail key member)
  known := mirror.known
  gone := mirror.gone
  shown k here := by
    rcases mirror.shown k here with place | lost
    · rcases List.mem_cons.mp place with rfl | other
      · exact absurd here gone
      · exact .inl other
    · exact .inr lost
  hidden k member := mirror.hidden k (fewer member)

theorem loseNew (mirror : Mirror used registered (key :: coming) copy going lostNew lostGone) :
    Mirror used registered coming copy going (key :: lostNew) lostGone :=
  { mirror with
    once := (List.nodup_cons.mp mirror.once).2
    seen := fun k member => mirror.seen k (.tail key member)
    shown := by
      intro k here
      rcases mirror.shown k here with place | lost
      · rcases List.mem_cons.mp place with rfl | other
        · exact .inr (.head _)
        · exact .inl other
      · exact .inr (.tail key lost) }

theorem notice {lostGone' : List κ} (mirror :
    Mirror used registered coming copy (key :: going) lostNew lostGone)
    (more : lostGone ⊆ lostGone') (settled : key ∈ copy → key ∈ lostGone') :
    Mirror used registered coming copy going lostNew lostGone' :=
  { mirror with
    gone := fun k member => mirror.gone k (.tail key member)
    hidden := by
      intro k member
      rcases mirror.hidden k member with here | noticed | lost
      · exact .inl here
      · rcases List.mem_cons.mp noticed with rfl | other
        · exact .inr (.inr (settled member))
        · exact .inr (.inl other)
      · exact .inr (.inr (more lost)) }

theorem acknowledge (mirror : Mirror used registered coming copy (key :: going) lostNew lostGone)
    (absent : key ∉ copy) :
    Mirror used registered coming copy going lostNew lostGone :=
  mirror.notice (List.Subset.refl _) fun member => absurd member absent

theorem loseGone (mirror : Mirror used registered coming copy (key :: going) lostNew lostGone) :
    Mirror used registered coming copy going lostNew (key :: lostGone) :=
  mirror.notice (List.subset_cons_self key lostGone) fun _ => .head _

theorem agrees (mirror : Mirror used registered copy copy [] lostNew lostGone) :
    copy.Nodup ∧ (∀ k ∈ registered, k ∈ copy ∨ k ∈ lostNew) ∧ ∀ k ∈ copy, k ∈ registered ∨
    k ∈ lostGone := by
  refine ⟨mirror.once, mirror.shown, fun k member => ?_⟩
  rcases mirror.hidden k member with here | noticed | lost
  · exact .inl here
  · cases noticed
  · exact .inr lost

end Mirror

end Shared
