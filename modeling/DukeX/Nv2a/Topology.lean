import Mathlib

/-!
# What the primitive modes mean

Vertices in, primitives out.
-/

namespace DukeX.Nv2a

variable {α : Type}

structure Primitive (α : Type) where
  perimeter : List α
  provoking : α

def Primitive.IsLine (p : Primitive α) : Prop :=
  ∃ a b, p.perimeter = [a, b] ∧ p.provoking ∈ [a, b]

def Primitive.IsTriangle (p : Primitive α) : Prop :=
  ∃ a b c, p.perimeter = [a, b, c] ∧ p.provoking ∈ [a, b, c]

namespace Modes

def pointList (vs : List α) : List (Primitive α) := vs.map fun v => ⟨[v], v⟩

def lineList (last : Bool) : List α → List (Primitive α)
  | a :: b :: vs => ⟨[a, b], if last then b else a⟩ :: lineList last vs
  | _ => []

def lineStrip (last : Bool) : List α → List (Primitive α)
  | a :: b :: vs => ⟨[a, b], if last then b else a⟩ :: lineStrip last (b :: vs)
  | _ => []

def lineLoop (last : Bool) (vs : List α) : List (Primitive α) :=
  if vs.length < 2 then [] else lineStrip last (vs ++ vs.head?.toList)

def triangleList (last : Bool) : List α → List (Primitive α)
  | a :: b :: c :: vs => ⟨[a, b, c], if last then c else a⟩ :: triangleList last vs
  | _ => []

def triangleStrip (last : Bool) (odd : Bool) : List α → List (Primitive α)
  | a :: b :: c :: vs =>
    ⟨if odd then [b, a, c] else [a, b, c], if last then c else a⟩ ::
      triangleStrip last (!odd) (b :: c :: vs)
  | _ => []

def fanFrom (last : Bool) (hub : α) : List α → List (Primitive α)
  | b :: c :: vs => ⟨[hub, b, c], if last then c else b⟩ :: fanFrom last hub (c :: vs)
  | _ => []

def triangleFan (last : Bool) : List α → List (Primitive α)
  | hub :: vs => fanFrom last hub vs
  | [] => []

def quadList : List α → List (Primitive α)
  | a :: b :: c :: d :: vs => ⟨[a, b, c, d], d⟩ :: quadList vs
  | _ => []

def quadStrip : List α → List (Primitive α)
  | a :: b :: c :: d :: vs => ⟨[a, b, d, c], d⟩ :: quadStrip (c :: d :: vs)
  | _ => []

def polygon (least : Nat) : List α → List (Primitive α)
  | v :: vs => if least ≤ (v :: vs).length then [⟨v :: vs, v⟩] else []
  | [] => []

/-! How many primitives there are. -/

@[simp] theorem length_pointList (vs : List α) : (pointList vs).length = vs.length := by
  simp [pointList]

@[simp] theorem length_lineList (last : Bool) : ∀ vs : List α,
    (lineList last vs).length = vs.length / 2
  | [] => by simp [lineList]
  | [_] => by simp [lineList]
  | _ :: _ :: vs => by
    simp only [lineList, List.length_cons, length_lineList last vs]
    omega

@[simp] theorem length_lineStrip (last : Bool) : ∀ vs : List α,
    (lineStrip last vs).length = vs.length - 1
  | [] => by simp [lineStrip]
  | [_] => by simp [lineStrip]
  | _ :: b :: vs => by
    simp only [lineStrip, List.length_cons, length_lineStrip last (b :: vs)]
    omega

@[simp] theorem length_triangleList (last : Bool) : ∀ vs : List α,
    (triangleList last vs).length = vs.length / 3
  | [] => by simp [triangleList]
  | [_] => by simp [triangleList]
  | [_, _] => by simp [triangleList]
  | _ :: _ :: _ :: vs => by
    simp only [triangleList, List.length_cons, length_triangleList last vs]
    omega

@[simp] theorem length_triangleStrip (last : Bool) : ∀ (odd : Bool) (vs : List α),
    (triangleStrip last odd vs).length = vs.length - 2
  | _, [] => by simp [triangleStrip]
  | _, [_] => by simp [triangleStrip]
  | _, [_, _] => by simp [triangleStrip]
  | odd, _ :: b :: c :: vs => by
    simp only [triangleStrip, List.length_cons, length_triangleStrip last (!odd) (b :: c :: vs)]
    omega

@[simp] theorem length_fanFrom (last : Bool) (hub : α) : ∀ vs : List α,
    (fanFrom last hub vs).length = vs.length - 1
  | [] => by simp [fanFrom]
  | [_] => by simp [fanFrom]
  | _ :: c :: vs => by
    simp only [fanFrom, List.length_cons, length_fanFrom last hub (c :: vs)]
    omega

@[simp] theorem length_quadList : ∀ vs : List α,
    (quadList vs).length = vs.length / 4
  | [] => by simp [quadList]
  | [_] => by simp [quadList]
  | [_, _] => by simp [quadList]
  | [_, _, _] => by simp [quadList]
  | _ :: _ :: _ :: _ :: vs => by
    simp only [quadList, List.length_cons, length_quadList vs]
    omega

@[simp] theorem length_quadStrip : ∀ vs : List α,
    (quadStrip vs).length = (vs.length - 2) / 2
  | [] => by simp [quadStrip]
  | [_] => by simp [quadStrip]
  | [_, _] => by simp [quadStrip]
  | [_, _, _] => by simp [quadStrip]
  | _ :: _ :: c :: d :: vs => by
    simp only [quadStrip, List.length_cons, length_quadStrip (c :: d :: vs)]
    omega

theorem lineStrip_append (last : Bool) (x : α) : ∀ (vs : List α) (h : vs ≠ []),
    lineStrip last (vs ++ [x]) =
      lineStrip last vs ++ [⟨[vs.getLast h, x], if last then x else vs.getLast h⟩]
  | [], h => absurd rfl h
  | [_], _ => rfl
  | a :: b :: vs, _ => by
    have hrest := lineStrip_append last x (b :: vs) (List.cons_ne_nil b vs)
    rw [List.cons_append, List.cons_append, lineStrip, ← List.cons_append, hrest, lineStrip,
      List.getLast_cons (List.cons_ne_nil b vs), List.cons_append]

variable {least : Nat} {vs : List α} {groups : List (List α)}

theorem polygon_of_length_lt (h : vs.length < least) : polygon least vs = [] := by
  cases vs with
  | nil => rfl
  | cons v vs => exact if_neg (Nat.not_le_of_lt h)

theorem polygon_cons {v : α} (h : least ≤ (v :: vs).length) :
    polygon least (v :: vs) = [⟨v :: vs, v⟩] := if_pos h

theorem isLine_of_mem_lineList (last : Bool) : ∀ (vs : List α), ∀ p ∈ lineList last vs, p.IsLine
  | [], _, hp => nomatch hp
  | [_], _, hp => nomatch hp
  | a :: b :: vs, p, hp => by
    rw [lineList] at hp
    cases hp with
    | head => exact ⟨a, b, rfl, by cases last <;> simp⟩
    | tail _ hp => exact isLine_of_mem_lineList last vs p hp

theorem isLine_of_mem_lineStrip (last : Bool) : ∀ (vs : List α), ∀ p ∈ lineStrip last vs, p.IsLine
  | [], _, hp => nomatch hp
  | [_], _, hp => nomatch hp
  | a :: b :: vs, p, hp => by
    rw [lineStrip] at hp
    cases hp with
    | head => exact ⟨a, b, rfl, by cases last <;> simp⟩
    | tail _ hp => exact isLine_of_mem_lineStrip last (b :: vs) p hp

theorem isLine_of_mem_lineLoop (last : Bool) (vs : List α) : ∀ p ∈ lineLoop last vs, p.IsLine := by
  grind [lineLoop, isLine_of_mem_lineStrip]

theorem isTriangle_of_mem_triangleList (last : Bool) :
    ∀ (vs : List α), ∀ p ∈ triangleList last vs, p.IsTriangle
  | [], _, hp => nomatch hp
  | [_], _, hp => nomatch hp
  | [_, _], _, hp => nomatch hp
  | a :: b :: c :: vs, p, hp => by
    rw [triangleList] at hp
    cases hp with
    | head => exact ⟨a, b, c, rfl, by cases last <;> simp⟩
    | tail _ hp => exact isTriangle_of_mem_triangleList last vs p hp

theorem isTriangle_of_mem_triangleStrip (last : Bool) :
    ∀ (odd : Bool) (vs : List α), ∀ p ∈ triangleStrip last odd vs, p.IsTriangle
  | _, [], _, hp => nomatch hp
  | _, [_], _, hp => nomatch hp
  | _, [_, _], _, hp => nomatch hp
  | odd, a :: b :: c :: vs, p, hp => by
    rw [triangleStrip] at hp
    cases hp with
    | head =>
      cases odd with
      | false => exact ⟨a, b, c, rfl, by cases last <;> simp⟩
      | true => exact ⟨b, a, c, rfl, by cases last <;> simp⟩
    | tail _ hp => exact isTriangle_of_mem_triangleStrip last (!odd) (b :: c :: vs) p hp

theorem isTriangle_of_mem_fanFrom (last : Bool) (hub : α) :
    ∀ (vs : List α), ∀ p ∈ fanFrom last hub vs, p.IsTriangle
  | [], _, hp => nomatch hp
  | [_], _, hp => nomatch hp
  | b :: c :: vs, p, hp => by
    rw [fanFrom] at hp
    cases hp with
    | head => exact ⟨hub, b, c, rfl, by cases last <;> simp⟩
    | tail _ hp => exact isTriangle_of_mem_fanFrom last hub (c :: vs) p hp

theorem exists_of_mem_quadList : ∀ (vs : List α), ∀ p ∈ quadList vs,
    ∃ a b c, p.perimeter = [a, b, c, p.provoking]
  | [], _, hp => nomatch hp
  | [_], _, hp => nomatch hp
  | [_, _], _, hp => nomatch hp
  | [_, _, _], _, hp => nomatch hp
  | a :: b :: c :: d :: vs, p, hp => by
    rw [quadList] at hp
    cases hp with
    | head => exact ⟨a, b, c, rfl⟩
    | tail _ hp => exact exists_of_mem_quadList vs p hp

theorem exists_of_mem_quadStrip : ∀ (vs : List α), ∀ p ∈ quadStrip vs,
    ∃ a b c, p.perimeter = [a, b, p.provoking, c]
  | [], _, hp => nomatch hp
  | [_], _, hp => nomatch hp
  | [_, _], _, hp => nomatch hp
  | [_, _, _], _, hp => nomatch hp
  | a :: b :: c :: d :: vs, p, hp => by
    rw [quadStrip] at hp
    cases hp with
    | head => exact ⟨a, b, c, rfl⟩
    | tail _ hp => exact exists_of_mem_quadStrip (c :: d :: vs) p hp

/-! ## What a primitive can be drawn as -/

def pairs : List α → List (List α)
  | a :: b :: vs => [a, b] :: pairs (b :: vs)
  | _ => []

def edges (vs : List α) : List (List α) := pairs (vs ++ vs.head?.toList)

def fan (hub : α) : List α → List (List α)
  | a :: b :: vs => [hub, a, b] :: fan hub (b :: vs)
  | _ => []

@[simp] theorem length_fan (hub : α) : ∀ vs : List α, (fan hub vs).length = vs.length - 1
  | [] => by simp [fan]
  | [_] => by simp [fan]
  | _ :: b :: vs => by
    simp only [fan, List.length_cons, length_fan hub (b :: vs)]
    omega

@[simp] theorem length_flatten_pairs : ∀ vs : List α, (pairs vs).flatten.length = 2 * (vs.length - 1)
  | [] => by simp [pairs]
  | [_] => by simp [pairs]
  | _ :: b :: vs => by
    have hrest := length_flatten_pairs (b :: vs)
    grind [pairs]

theorem length_flatten_edges (vs : List α) : (edges vs).flatten.length = 2 * vs.length := by
  rw [edges, length_flatten_pairs]
  cases vs with
  | nil => rfl
  | cons v vs => simp

theorem length_flatten_fan (hub : α) : ∀ vs : List α, (fan hub vs).flatten.length = 3 * (vs.length - 1)
  | [] => by simp [fan]
  | [_] => by simp [fan]
  | _ :: b :: vs => by
    have hrest := length_flatten_fan hub (b :: vs)
    grind [fan]

theorem length_of_mem_pairs : ∀ (vs : List α), ∀ line ∈ pairs vs, line.length = 2
  | [], _, h => nomatch h
  | [_], _, h => nomatch h
  | a :: b :: vs, line, h => by
    rw [pairs] at h
    cases h with
    | head => rfl
    | tail _ h => exact length_of_mem_pairs (b :: vs) line h

theorem exists_of_mem_fan (hub : α) : ∀ (vs : List α), ∀ triangle ∈ fan hub vs,
    ∃ a b, triangle = [hub, a, b]
  | [], _, h => nomatch h
  | [_], _, h => nomatch h
  | a :: b :: vs, triangle, h => by
    rw [fan] at h
    cases h with
    | head => exact ⟨a, b, rfl⟩
    | tail _ h => exact exists_of_mem_fan hub (b :: vs) triangle h

theorem pairs_append (x : α) : ∀ (vs : List α) (h : vs ≠ []),
    pairs (vs ++ [x]) = pairs vs ++ [[vs.getLast h, x]]
  | [], h => absurd rfl h
  | [_], _ => rfl
  | a :: b :: vs, _ => by
    have hrest := pairs_append x (b :: vs) (List.cons_ne_nil b vs)
    rw [List.cons_append, List.cons_append, pairs, ← List.cons_append, hrest, pairs,
      List.getLast_cons (List.cons_ne_nil b vs), List.cons_append]

/-- The triangles, each up to where it starts, are the fan of the perimeter around one of its
vertices. -/
def Triangulates (perimeter : List α) (triangles : List (List α)) : Prop :=
  ∃ hub vs, perimeter ~r (hub :: vs) ∧ List.Forall₂ (· ~r ·) (fan hub vs) triangles

def readPoints (vs : List α) : List (List α) := vs.map fun v => [v]

def readLines : List α → List (List α)
  | a :: b :: vs => [a, b] :: readLines vs
  | _ => []

def readTriangles : List α → List (List α)
  | a :: b :: c :: vs => [a, b, c] :: readTriangles vs
  | _ => []

theorem readPoints_flatten (h : ∀ g ∈ groups, g.length = 1) :
    readPoints groups.flatten = groups := by
  induction groups with
  | nil => rfl
  | cons g groups ih =>
    obtain ⟨a, rfl⟩ := List.length_eq_one_iff.mp (h g List.mem_cons_self)
    have hrest := ih fun g hg => h g (List.mem_cons_of_mem _ hg)
    exact congrArg ([a] :: ·) hrest

theorem readLines_flatten (h : ∀ g ∈ groups, g.length = 2) : readLines groups.flatten = groups := by
  induction groups with
  | nil => rfl
  | cons g groups ih =>
    obtain ⟨a, b, rfl⟩ := List.length_eq_two.mp (h g List.mem_cons_self)
    have hrest := ih fun g hg => h g (List.mem_cons_of_mem _ hg)
    exact congrArg ([a, b] :: ·) hrest

theorem readTriangles_flatten (h : ∀ g ∈ groups, g.length = 3) :
    readTriangles groups.flatten = groups := by
  induction groups with
  | nil => rfl
  | cons g groups ih =>
    obtain ⟨a, b, c, rfl⟩ := List.length_eq_three.mp (h g List.mem_cons_self)
    have hrest := ih fun g hg => h g (List.mem_cons_of_mem _ hg)
    exact congrArg ([a, b, c] :: ·) hrest

end Modes

end DukeX.Nv2a
