/-!
# Cutting a text into tiles

Every character of the text is in exactly one tile. What a tile is depends on its first character and
those behind it only, so that a lexer is a function that cuts one tile.
-/

namespace SchemaDialects.Text

variable {α : Type}

/-- The tiles of a text with their characters. `cut` is given the first character of a tile and those
behind it, and says how many of these belong to the tile. -/
def tiles (cut : Char → List Char → α × Nat) : List Char → List (α × List Char)
  | [] => []
  | c :: cs =>
    let (tile, n) := cut c cs
    (tile, c :: cs.take n) :: tiles cut (cs.drop n)
termination_by cs => cs.length
decreasing_by rw [List.length_drop, List.length_cons]; omega

theorem tiles_nil (cut : Char → List Char → α × Nat) : tiles cut [] = [] := by rw [tiles]

theorem tiles_cons (cut : Char → List Char → α × Nat) (c : Char) (cs : List Char) : tiles cut (c :: cs) =
    ((cut c cs).1, c :: cs.take (cut c cs).2) :: tiles cut (cs.drop (cut c cs).2) := by
  rw [tiles]

/-- What holds of a text if it holds of what stands behind its first tile. -/
theorem tiles_induction (cut : Char → List Char → α × Nat) {motive : List Char → Prop} (nil : motive [])
    (cons : ∀ c cs, motive (cs.drop (cut c cs).2) → motive (c :: cs)) (cs : List Char) : motive cs := by
  induction h : cs.length using Nat.strongRecOn generalizing cs with
  | ind n ih =>
    cases cs with
    | nil => exact nil
    | cons c cs =>
      refine cons c cs (ih _ ?_ _ rfl)
      rw [← h, List.length_drop, List.length_cons]
      omega

/-- Nothing is lost or moved. -/
theorem flatMap_tiles (cut : Char → List Char → α × Nat) (cs : List Char) :
    (tiles cut cs).flatMap (·.2) = cs := by
  induction cs using tiles_induction cut with
  | nil => simp [tiles]
  | cons c cs ih => simp [tiles_cons, ih]

/-- No tile is empty. -/
theorem ne_nil_of_mem_tiles {cut : Char → List Char → α × Nat} {cs : List Char}
    {tile : α × List Char} (h : tile ∈ tiles cut cs) : tile.2 ≠ [] := by
  induction cs using tiles_induction cut with
  | nil => simp [tiles] at h
  | cons c cs ih =>
    rw [tiles_cons] at h
    rcases List.mem_cons.mp h with rfl | h
    · simp
    · exact ih h

end SchemaDialects.Text
