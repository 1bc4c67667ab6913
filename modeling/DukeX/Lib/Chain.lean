import Mathlib

/-!
# Linked chains

A chain is what one finds by following a partial successor function until it stops: a linked list
inside an array, a cluster chain inside an allocation table.
-/

namespace DukeX.Lib

variable {α : Type} {next next' : α → Option α} {a b : α} {l l' : List α}

inductive Chain (next : α → Option α) : α → List α → Prop
  | last {a : α} : next a = none → Chain next a [a]
  | cons {a b : α} {l : List α} : next a = some b → Chain next b l → Chain next a (a :: l)

section

variable (h : Chain next a l)

include h

theorem Chain.head_eq : l.head? = some a := by
  cases h <;> rfl

theorem Chain.head_mem : a ∈ l :=
  List.mem_of_mem_head? h.head_eq

theorem Chain.ne_nil : l ≠ [] := by
  cases h <;> simp

theorem Chain.unique (h' : Chain next a l') : l = l' := by
  induction h generalizing l' with
  | last hn =>
    cases h' with
    | last => rfl
    | cons hs => rw [hn] at hs; cases hs
  | cons hs _ ih =>
    cases h' with
    | last hn => rw [hn] at hs; cases hs
    | cons hs' ht' =>
      rw [hs] at hs'
      cases hs'
      rw [ih ht']

theorem Chain.suffix {x : α} (hx : x ∈ l) :
    ∃ l1 l2, l = l1 ++ l2 ∧ Chain next x l2 := by
  induction h with
  | last hn =>
    rcases List.mem_singleton.mp hx with rfl
    exact ⟨[], _, rfl, .last hn⟩
  | @cons a b l hs ht ih =>
    rcases List.mem_cons.mp hx with rfl | hx
    · exact ⟨[], _, rfl, .cons hs ht⟩
    · grind

theorem Chain.nodup : l.Nodup := by
  induction h with
  | last => simp
  | @cons a b l hs ht ih =>
    refine List.nodup_cons.mpr ⟨fun hmem => ?_, ih⟩
    -- the tail would contain a chain from `a`, which is the whole chain again
    obtain ⟨l1, l2, rfl, hc⟩ := ht.suffix hmem
    have heq := hc.unique (.cons hs ht)
    have := congrArg List.length heq
    simp at this
    omega

theorem Chain.congr (hn : ∀ x ∈ l, next' x = next x) : Chain next' a l := by
  induction h with
  | last h0 => exact .last (by rw [hn _ (by simp), h0])
  | cons hs _ ih =>
    exact .cons (by rw [hn _ (by simp), hs]) (ih fun x hx => hn x (by simp [hx]))

theorem Chain.next_getLast : next (l.getLast h.ne_nil) = none := by
  induction h with
  | last hn => exact hn
  | cons _ ht ih => rw [List.getLast_cons ht.ne_nil]; exact ih

theorem Chain.next_mem {x : α} (hx : x ∈ l) :
    next x = none ∨ ∃ y ∈ l, next x = some y := by
  induction h with
  | last hn =>
    rcases List.mem_singleton.mp hx with rfl
    exact .inl hn
  | cons hs ht ih =>
    rcases List.mem_cons.mp hx with rfl | hx
    · exact .inr ⟨_, by simp [ht.head_mem], hs⟩
    · grind

theorem Chain.snoc {n : α} (hstop : next' n = none)
    (hlink : next' (l.getLast h.ne_nil) = some n)
    (hrest : ∀ x ∈ l, x ≠ l.getLast h.ne_nil → next' x = next x) : Chain next' a (l ++ [n]) := by
  induction h with
  | last h0 => exact .cons hlink (.last hstop)
  | @cons a b l hs ht ih =>
    have hlast : (a :: l).getLast (by simp) = l.getLast ht.ne_nil := List.getLast_cons ht.ne_nil
    have hnd : a ∉ l := (List.nodup_cons.mp (Chain.cons hs ht).nodup).1
    have ha : a ≠ l.getLast ht.ne_nil := fun he => hnd (he ▸ List.getLast_mem ht.ne_nil)
    rw [hlast] at hlink hrest
    have hn : next' a = some b := by rw [hrest a (by simp) ha, hs]
    exact .cons hn (ih hlink fun x hx hne => hrest x (by simp [hx]) hne)

end

variable [DecidableEq α]

def walk (ok : α → Bool) (next : α → Option α) : Nat → List α → α → List α
  | 0, seen, _ => seen
  | fuel + 1, seen, current =>
    if ok current ∧ current ∉ seen then
      match next current with
      | none => seen ++ [current]
      | some n => walk ok next fuel (seen ++ [current]) n
    else seen

variable {ok : α → Bool} {seen : List α}

theorem walk_eq (h : Chain next a l) (hok : ∀ x ∈ l, ok x = true) {fuel : Nat}
    (hf : l.length ≤ fuel) (hd : ∀ x ∈ l, x ∉ seen) :
    walk ok next fuel seen a = seen ++ l := by
  induction h generalizing fuel seen with
  | @last a h0 =>
    obtain ⟨fuel, rfl⟩ : ∃ k, fuel = k + 1 := ⟨fuel - 1, by simp at hf; omega⟩
    simp [walk, hok, hd, h0]
  | @cons a b l hs ht ih =>
    obtain ⟨fuel, rfl⟩ : ∃ k, fuel = k + 1 := ⟨fuel - 1, by simp at hf; omega⟩
    have h1 : ok a = true ∧ a ∉ seen := ⟨hok a (by simp), hd a (by simp)⟩
    have hnd : a ∉ l := (List.nodup_cons.mp (Chain.cons hs ht).nodup).1
    simp only [walk, h1, hs, not_false_eq_true, and_self, if_true]
    grind

theorem walk_ok {fuel : Nat} {c : α}
    (hseen : ∀ x ∈ seen, ok x = true) : ∀ x ∈ walk ok next fuel seen c, ok x = true := by
  induction fuel generalizing seen c with
  | zero => exact hseen
  | succ fuel ih =>
    unfold walk
    split
    · rename_i hc
      have hseen' : ∀ x ∈ seen ++ [c], ok x = true := by
        grind
      grind
    · exact hseen

end DukeX.Lib
