import Mathlib.Data.List.Basic
import Mathlib.Data.List.Induction
import Mathlib.Data.List.Nodup
import Mathlib.Data.List.Pairwise
import Mathlib.Tactic.Common

/-!
# First occurrences by key

`keep` appends an element unless its key is there already, and `absorb` does so with a whole list.
Absorbing from nothing leaves the first occurrence of every key, in order. Absorbing elements whose keys
are all there changes nothing, which is why a repeated insertion is harmless.
-/

namespace FirstOccurrence

variable {α β κ : Type*} [DecidableEq κ] (key : α → κ)

def keep (acc : List α) (a : α) : List α := if key a ∈ acc.map key then acc else acc ++ [a]

def absorb (acc l : List α) : List α := l.foldl (keep key) acc

def firsts (l : List α) : List α := absorb key [] l

@[simp] theorem absorb_nil (acc : List α) : absorb key acc [] = acc := rfl

theorem absorb_cons (acc : List α) (a : α) (l : List α) :
    absorb key acc (a :: l) = absorb key (keep key acc a) l := rfl

theorem absorb_append (acc l l' : List α) : absorb key acc (l ++ l') = absorb key (absorb key acc l) l' :=
  List.foldl_append

theorem firsts_append (l l' : List α) : firsts key (l ++ l') = absorb key (firsts key l) l' :=
  absorb_append key [] l l'

theorem mem_keys_keep {acc : List α} {a : α} {k : κ} :
    k ∈ (keep key acc a).map key ↔ k ∈ acc.map key ∨ k = key a := by
  rw [keep]
  split
  · next hmem =>
      refine ⟨.inl, ?_⟩
      rintro (h | rfl)
      · exact h
      · exact hmem
  · rw [List.map_append, List.mem_append, List.map_singleton, List.mem_singleton]

theorem mem_keys_absorb {acc l : List α} {k : κ} :
    k ∈ (absorb key acc l).map key ↔ k ∈ acc.map key ∨ k ∈ l.map key := by
  induction l generalizing acc with
  | nil => simp
  | cons a l ih =>
      rw [absorb_cons, ih, mem_keys_keep, List.map_cons, List.mem_cons, or_assoc]

theorem nodup_absorb {acc : List α} (hacc : (acc.map key).Nodup) (l : List α) :
    ((absorb key acc l).map key).Nodup := by
  induction l generalizing acc with
  | nil => exact hacc
  | cons a l ih =>
      apply ih
      rw [keep]
      split
      · exact hacc
      · next hnew =>
          rw [List.map_append, List.nodup_append]
          refine ⟨hacc, List.nodup_singleton _, fun k hk k' hk' => ?_⟩
          obtain rfl := List.mem_singleton.mp hk'
          rintro rfl
          exact hnew hk

theorem nodup_firsts (l : List α) : ((firsts key l).map key).Nodup :=
  nodup_absorb key (show (([] : List α).map key).Nodup from List.nodup_nil) l

theorem absorb_eq_self {acc l : List α} (h : ∀ a ∈ l, key a ∈ acc.map key) : absorb key acc l = acc := by
  induction l with
  | nil => rfl
  | cons a l ih =>
      have hkeep : keep key acc a = acc := if_pos (h a List.mem_cons_self)
      rw [absorb_cons, hkeep]
      exact ih fun b hb => h b (List.mem_cons_of_mem _ hb)

/-- Absorbing the same elements again changes nothing. -/
theorem absorb_absorb_self (acc l : List α) : absorb key (absorb key acc l) l = absorb key acc l :=
  absorb_eq_self key fun _ ha => (mem_keys_absorb key).mpr (.inr (List.mem_map_of_mem ha))

theorem absorb_eq_append {acc l : List α} (h : ((acc ++ l).map key).Nodup) : absorb key acc l = acc ++ l := by
  induction l generalizing acc with
  | nil => simp
  | cons a l ih =>
      have hnew : key a ∉ acc.map key := by
        intro hmem
        rw [List.map_append, List.map_cons, List.nodup_append] at h
        exact h.2.2 _ hmem _ List.mem_cons_self rfl
      rw [absorb_cons, keep, if_neg hnew, ih]
      · rw [List.append_assoc, List.singleton_append]
      · rwa [List.append_assoc, List.singleton_append]

/-- Replaying a list over its own beginning absorbs the rest of it. -/
theorem absorb_replay (base early late : List α) :
    absorb key (firsts key (base ++ early)) (early ++ late) = firsts key (base ++ (early ++ late)) := by
  have hearly : absorb key (firsts key (base ++ early)) early = firsts key (base ++ early) := by
    rw [firsts_append, absorb_absorb_self]
  rw [absorb_append, hearly, ← firsts_append, List.append_assoc]

theorem prefix_keep (acc : List α) (a : α) : acc <+: keep key acc a := by
  rw [keep]
  split
  · exact List.prefix_refl acc
  · exact List.prefix_append _ _

theorem prefix_absorb (acc l : List α) : acc <+: absorb key acc l := by
  induction l generalizing acc with
  | nil => exact List.prefix_refl acc
  | cons a l ih => exact (prefix_keep key acc a).trans (ih _)

theorem firsts_prefix {l l' : List α} (h : l <+: l') : firsts key l <+: firsts key l' := by
  obtain ⟨rest, rfl⟩ := h
  rw [firsts_append]
  exact prefix_absorb key _ rest

theorem head?_firsts (l : List α) : (firsts key l).head? = l.head? := by
  cases l with
  | nil => rfl
  | cons a l =>
      obtain ⟨rest, hrest⟩ := prefix_absorb key [a] l
      have hfirst : firsts key (a :: l) = absorb key [a] l := rfl
      rw [hfirst, ← hrest]
      rfl

/-- In a list sorted by key, the key that is new last is the key of the last element. -/
theorem getLast?_firsts {r : κ → κ → Prop} [Std.Refl r] [Std.Antisymm r] {l : List α}
    (hsorted : (l.map key).Pairwise r) : (firsts key l).getLast?.map key = l.getLast?.map key := by
  induction l using List.reverseRecOn with
  | nil => rfl
  | append_singleton l a ih =>
      rw [List.map_append] at hsorted
      obtain ⟨hinit, -, hbefore⟩ := List.pairwise_append.mp hsorted
      have hfirsts : firsts key (l ++ [a]) = keep key (firsts key l) a := firsts_append key l [a]
      rw [hfirsts, keep, List.getLast?_concat]
      split
      · next hmem =>
          have hold : key a ∈ l.map key := ((mem_keys_absorb key).mp hmem).resolve_left List.not_mem_nil
          have hlast : (l.map key).getLast (List.ne_nil_of_mem hold) ∈ l.map key := List.getLast_mem _
          have heq : (l.map key).getLast (List.ne_nil_of_mem hold) = key a :=
            antisymm (hbefore _ hlast _ List.mem_cons_self) (hinit.rel_getLast hold)
          rw [ih hinit, ← List.getLast?_map, List.getLast?_eq_some_getLast (List.ne_nil_of_mem hold), heq]
          rfl
      · rw [List.getLast?_concat]

theorem sublist_absorb (acc l : List α) : (absorb key acc l).Sublist (acc ++ l) := by
  induction l generalizing acc with
  | nil => simp
  | cons a l ih =>
      apply (ih _).trans
      rw [keep]
      split
      · exact List.Sublist.append_left (List.sublist_cons_self a l) acc
      · simp

theorem find?_absorb (acc l : List α) (k : κ) :
    (absorb key acc l).find? (fun a => key a = k) = (acc ++ l).find? fun a => key a = k := by
  induction l generalizing acc with
  | nil => simp
  | cons a l ih =>
      rw [absorb_cons, ih, keep]
      split
      · next hmem =>
          obtain ⟨b, hb, hkey⟩ := List.mem_map.mp hmem
          rw [List.find?_append, List.find?_append, List.find?_cons]
          by_cases hk : key a = k
          · have hfound : (acc.find? fun a => key a = k).isSome := by
              rw [List.find?_isSome]
              exact ⟨b, hb, decide_eq_true (hkey.trans hk)⟩
            rw [Option.or_of_isSome hfound, Option.or_of_isSome hfound]
          · simp [hk]
      · rw [List.append_assoc, List.singleton_append]

theorem find?_firsts (l : List α) (k : κ) :
    (firsts key l).find? (fun a => key a = k) = l.find? fun a => key a = k :=
  find?_absorb key [] l k

/-- Does the element at `n` repeat the key of one that is there already, or of one before it? -/
def IsRepeat (acc l : List α) (n : Fin l.length) : Prop := key l[n] ∈ (acc ++ l.take n).map key

instance (acc l : List α) (n : Fin l.length) : Decidable (IsRepeat key acc l n) :=
  inferInstanceAs (Decidable (_ ∈ _))

/-- The number of elements that repeat a key. -/
def repeats (acc l : List α) : Nat := (List.finRange l.length).countP fun n => IsRepeat key acc l n

@[simp] theorem repeats_nil (acc : List α) : repeats key acc [] = 0 := rfl

omit [DecidableEq κ] in
theorem isRepeat_cons_zero (acc : List α) (a : α) (l : List α) :
    IsRepeat key acc (a :: l) ⟨0, Nat.zero_lt_succ _⟩ ↔ key a ∈ acc.map key := by
  simp [IsRepeat]

theorem isRepeat_cons_succ (acc : List α) (a : α) (l : List α) (n : Fin l.length) :
    IsRepeat key acc (a :: l) n.succ ↔ IsRepeat key (keep key acc a) l n := by
  have hkeys : (acc ++ a :: l.take n).map key = acc.map key ++ (key a :: (l.take n).map key) := by simp
  change key l[n] ∈ (acc ++ a :: l.take n).map key ↔ key l[n] ∈ (keep key acc a ++ l.take n).map key
  rw [hkeys, List.map_append, List.mem_append, List.mem_append, mem_keys_keep, List.mem_cons, or_assoc]

theorem repeats_cons (acc : List α) (a : α) (l : List α) :
    repeats key acc (a :: l) = (if key a ∈ acc.map key then 1 else 0) + repeats key (keep key acc a) l := by
  have hlater : ((List.finRange l.length).map Fin.succ).countP (fun n => IsRepeat key acc (a :: l) n) =
      repeats key (keep key acc a) l := by
    rw [List.countP_map]
    apply List.countP_congr
    intro n _
    simp [isRepeat_cons_succ]
  have hpositions : List.finRange (a :: l).length = 0 :: (List.finRange l.length).map Fin.succ := List.finRange_succ
  have hfirst := isRepeat_cons_zero key acc a l
  rw [repeats, hpositions, List.countP_cons, hlater, Nat.add_comm]
  congr 1
  apply if_congr _ rfl rfl
  exact decide_eq_true_iff.trans hfirst

theorem length_absorb (acc l : List α) :
    (absorb key acc l).length + repeats key acc l = acc.length + l.length := by
  induction l generalizing acc with
  | nil => simp
  | cons a l ih =>
      have hrest := ih (keep key acc a)
      have hkeep : (keep key acc a).length + (if key a ∈ acc.map key then 1 else 0) = acc.length + 1 := by
        rw [keep]
        split <;> simp
      rw [absorb_cons, repeats_cons, List.length_cons]
      omega

theorem getElem_mem_absorb {acc l : List α} {n : Fin l.length} (h : ¬ IsRepeat key acc l n) :
    l[n] ∈ absorb key acc l := by
  induction l generalizing acc with
  | nil => exact n.elim0
  | cons a l ih =>
      rw [absorb_cons]
      cases n using Fin.cases with
      | zero =>
          have hkeep : keep key acc a = acc ++ [a] := if_neg fun hold => h ((isRepeat_cons_zero key acc a l).mpr hold)
          apply (prefix_absorb key (keep key acc a) l).subset
          simp [hkeep]
      | succ n =>
          rw [isRepeat_cons_succ] at h
          exact ih h

/-- Keys that a map keeps are absorbed alike. -/
theorem map_absorb (key' : β → κ) (f : α → β) (hf : ∀ a, key' (f a) = key a) (acc l : List α) :
    (absorb key acc l).map f = absorb key' (acc.map f) (l.map f) := by
  induction l generalizing acc with
  | nil => rfl
  | cons a l ih =>
      have hkeys : (acc.map f).map key' = acc.map key := by
        rw [List.map_map]
        exact List.map_congr_left fun b _ => hf b
      rw [absorb_cons, ih, List.map_cons, absorb_cons]
      congr 1
      rw [keep, keep, hkeys, hf]
      split
      · rfl
      · rw [List.map_append, List.map_singleton]

end FirstOccurrence
