import CSurvey.Proofs.Syntax.Places
import CSurvey.Token.Basic

/-! # Trees at other places

What is read elsewhere has the same parts at other places. A map of places moves whatever has
places in it. -/

namespace CSurvey

/-- What a map of places moves, place by place. -/
class Moves (α : Type) where
  move : (Position → Position) → α → α

open Moves (move)

variable {f : Position → Position}

instance : Moves Position := ⟨fun f p => f p⟩

instance : Moves Token := ⟨fun f t => { t with location := f t.location }⟩

/-! ## What has no places -/

instance : Moves Unit := ⟨fun _ a => a⟩

instance : Moves Bool := ⟨fun _ a => a⟩

instance : Moves Nat := ⟨fun _ a => a⟩

instance : Moves String := ⟨fun _ a => a⟩

instance : Moves Token.Kind := ⟨fun _ a => a⟩

/-! ## What is made of parts -/

instance {α : Type} [Moves α] : Moves (List α) := ⟨fun f => List.map (move f)⟩

instance {α : Type} [Moves α] : Moves (Option α) := ⟨fun f => Option.map (move f)⟩

instance {α β : Type} [Moves α] [Moves β] : Moves (α × β) := ⟨fun f => Prod.map (move f) (move f)⟩

section

variable {α : Type} [Moves α]

@[simp] theorem move_nil : move f ([] : List α) = [] := rfl

@[simp] theorem move_cons (a : α) (as : List α) : move f (a :: as) = move f a :: move f as := rfl

@[simp] theorem move_append (as bs : List α) : move f (as ++ bs) = move f as ++ move f bs :=
  List.map_append

@[simp] theorem move_reverse (as : List α) : move f as.reverse = (move f as).reverse :=
  List.map_reverse

@[simp] theorem length_move (as : List α) : (move f as).length = as.length :=
  List.length_map _

@[simp] theorem isEmpty_move (as : List α) : (move f as).isEmpty = as.isEmpty :=
  List.isEmpty_map

@[simp] theorem move_toList (a : Option α) : move f a.toList = (move f a).toList := by
  cases a <;> rfl

theorem move_eq_self {as : List α} (h : ∀ a ∈ as, move f a = a) : move f as = as :=
  (List.map_congr_left h).trans (List.map_id' as)

end

@[simp] theorem move_texts (words : List String) : move f words = words :=
  List.map_id _

@[simp] theorem Token.move_kind (t : Token) : (move f t).kind = t.kind := rfl

@[simp] theorem Token.move_text (t : Token) : (move f t).text = t.text := rfl

@[simp] theorem Token.move_location (t : Token) : (move f t).location = f t.location := rfl

@[simp] theorem Token.move_spelling (t : Token) : (move f t).spelling = t.spelling := rfl

/-! ## Trees -/

namespace Node

mutual

/-- The tree with its places moved. -/
def moved (f : Position → Position) : Node → Node
  | ⟨kind, value, children, location⟩ => ⟨kind, value, movedAll f children, f location⟩

/-- The trees with their places moved. -/
def movedAll (f : Position → Position) : List Node → List Node
  | [] => []
  | n :: ns => n.moved f :: movedAll f ns

end

instance : Moves Node := ⟨moved⟩

theorem movedAll_eq_move (ns : List Node) : movedAll f ns = move f ns := by
  induction ns with
  | nil => rfl
  | cons n ns ih => rw [movedAll, ih, move_cons]; rfl

@[simp] theorem move_mk (kind : Kind) (value : Option Value) (children : List Node)
    (location : Position) :
    move f (⟨kind, value, children, location⟩ : Node) =
      ⟨kind, value, move f children, f location⟩ := by
  rw [← movedAll_eq_move]
  rfl

@[simp] theorem move_texted (kind : Kind) (text : String) (location : Position)
    (children : List Node) :
    move f (texted kind text location children) =
      texted kind text (f location) (move f children) :=
  move_mk ..

@[simp] theorem move_plain (kind : Kind) (location : Position) (children : List Node) :
    move f (plain kind location children) = plain kind (f location) (move f children) :=
  move_mk ..

@[simp] theorem move_absent (location : Position) :
    move f (absent location) = absent (f location) := rfl

@[simp] theorem move_kind (n : Node) : (move f n).kind = n.kind := by
  obtain ⟨kind, value, children, location⟩ := n
  rfl

@[simp] theorem move_value (n : Node) : (move f n).value = n.value := by
  obtain ⟨kind, value, children, location⟩ := n
  rfl

@[simp] theorem move_text? (n : Node) : (move f n).text? = n.text? := by
  rw [text?, move_value]
  rfl

@[simp] theorem move_location (n : Node) : (move f n).location = f n.location := by
  obtain ⟨kind, value, children, location⟩ := n
  rfl

@[simp] theorem move_children (n : Node) : (move f n).children = move f n.children := by
  obtain ⟨kind, value, children, location⟩ := n
  rw [move_mk]

mutual

/-- Moving is not seen once the places are taken off. -/
theorem unplaced_moved : (n : Node) → (n.moved f).unplaced = n.unplaced
  | ⟨kind, value, children, location⟩ => by
    rw [moved, unplaced, unplaced, unplacedAll_movedAll children]

theorem unplacedAll_movedAll : (ns : List Node) → unplacedAll (movedAll f ns) = unplacedAll ns
  | [] => rfl
  | n :: ns => by
    rw [movedAll, unplacedAll, unplacedAll, unplaced_moved n, unplacedAll_movedAll ns]

end

@[simp] theorem unplaced_move (n : Node) : (move f n).unplaced = n.unplaced :=
  unplaced_moved n

@[simp] theorem render_move (n : Node) : (move f n).render = n.render := by
  rw [← render_unplaced, unplaced_move, render_unplaced]

mutual

/-- A tree whose places are not moved stays as it is. -/
theorem moved_eq_self : (n : Node) → (∀ m ∈ n.preorder, f m.location = m.location) →
    n.moved f = n
  | ⟨kind, value, children, location⟩, h => by
    rw [moved, movedAll_eq_self children fun m hm => h m (List.mem_cons_of_mem _ hm),
      show f location = location from h _ (List.mem_cons_self ..)]

theorem movedAll_eq_self : (ns : List Node) → (∀ m ∈ preorderAll ns, f m.location = m.location) →
    movedAll f ns = ns
  | [], _ => rfl
  | n :: ns, h => by
    rw [movedAll, moved_eq_self n fun m hm => h m (List.mem_append_left _ hm),
      movedAll_eq_self ns fun m hm => h m (List.mem_append_right _ hm)]

end

theorem move_id (ns : List Node) : move id ns = ns :=
  move_eq_self fun n _ => n.moved_eq_self fun _ _ => rfl

end Node

end CSurvey
