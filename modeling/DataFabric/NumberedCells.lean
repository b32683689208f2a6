import Mathlib.Data.List.Basic

set_option autoImplicit false

/-!
# Cells that are numbered as their values are pushed

A table of cells is written row by row. A cell with a value pushes it to the parameters and is
marked with their number; a cell without one is written out.
-/
namespace DataFabric.NumberedCells

variable {α : Type*}

def place (params : List α) : List (Option α) → List (Option ℕ) × List α
  | [] => ([], params)
  | none :: cells => (none :: (place params cells).1, (place params cells).2)
  | some v :: cells =>
    let rest := place (params ++ [v]) cells
    (some (params.length + 1) :: rest.1, rest.2)

def placeRows (params : List α) : List (List (Option α)) → List (List (Option ℕ)) × List α
  | [] => ([], params)
  | row :: rows =>
    let placed := place params row
    let rest := placeRows placed.2 rows
    (placed.1 :: rest.1, rest.2)

def byNumber (params : List α) (cells : List (Option ℕ)) : List (Option α) :=
  cells.map fun mark => mark.bind fun k => params[k - 1]?

/-- The cells of marks without numbers, and the parameters that are left. -/
def inOrder : List α → List (Option ℕ) → List (Option α) × List α
  | params, [] => ([], params)
  | params, none :: cells => (none :: (inOrder params cells).1, (inOrder params cells).2)
  | [], some _ :: cells => (none :: (inOrder [] cells).1, (inOrder [] cells).2)
  | v :: params, some _ :: cells => (some v :: (inOrder params cells).1, (inOrder params cells).2)

def inOrderRows : List α → List (List (Option ℕ)) → List (List (Option α))
  | _, [] => []
  | params, cells :: rows => (inOrder params cells).1 :: inOrderRows (inOrder params cells).2 rows

theorem place_params (params : List α) (cells : List (Option α)) :
    (place params cells).2 = params ++ cells.filterMap id := by
  induction cells generalizing params with
  | nil => exact (List.append_nil params).symm
  | cons cell cells ih =>
    cases cell with
    | none => exact ih params
    | some v =>
      change (place (params ++ [v]) cells).2 = _
      rw [ih, List.append_assoc]
      rfl

theorem placeRows_params (params : List α) (rows : List (List (Option α))) :
    (placeRows params rows).2 = params ++ rows.flatten.filterMap id := by
  induction rows generalizing params with
  | nil => exact (List.append_nil params).symm
  | cons row rows ih =>
    change (placeRows (place params row).2 rows).2 = _
    rw [ih, place_params, List.flatten_cons, List.filterMap_append, List.append_assoc]

theorem byNumber_place (params later : List α) (cells : List (Option α)) :
    byNumber ((place params cells).2 ++ later) (place params cells).1 = cells := by
  induction cells generalizing params with
  | nil => rfl
  | cons cell cells ih =>
    cases cell with
    | none => exact congrArg (none :: ·) (ih params)
    | some v =>
      have hvalue : ((place (params ++ [v]) cells).2 ++ later)[params.length]? = some v := by
        rw [place_params]
        simp
      change ((place (params ++ [v]) cells).2 ++ later)[params.length + 1 - 1]? ::
        byNumber ((place (params ++ [v]) cells).2 ++ later) (place (params ++ [v]) cells).1 = _
      rw [ih, Nat.add_sub_cancel, hvalue]

theorem byNumber_placeRows (params later : List α) (rows : List (List (Option α))) :
    (placeRows params rows).1.map (byNumber ((placeRows params rows).2 ++ later)) = rows := by
  induction rows generalizing params with
  | nil => rfl
  | cons row rows ih =>
    have hrest := ih (place params row).2
    change byNumber ((placeRows (place params row).2 rows).2 ++ later) (place params row).1 ::
      (placeRows (place params row).2 rows).1.map
        (byNumber ((placeRows (place params row).2 rows).2 ++ later)) = _
    rw [hrest, placeRows_params, List.append_assoc, byNumber_place]

theorem inOrder_place (params later : List α) (cells : List (Option α)) :
    inOrder (cells.filterMap id ++ later) (place params cells).1 = (cells, later) := by
  induction cells generalizing params with
  | nil => rfl
  | cons cell cells ih =>
    cases cell with
    | none =>
      change (none :: (inOrder (cells.filterMap id ++ later) (place params cells).1).1,
        (inOrder (cells.filterMap id ++ later) (place params cells).1).2) = _
      rw [ih]
    | some v =>
      change (some v :: (inOrder (cells.filterMap id ++ later) (place (params ++ [v]) cells).1).1,
        (inOrder (cells.filterMap id ++ later) (place (params ++ [v]) cells).1).2) = _
      rw [ih]

theorem inOrderRows_placeRows (params later : List α) (rows : List (List (Option α))) :
    inOrderRows (rows.flatten.filterMap id ++ later) (placeRows params rows).1 = rows := by
  induction rows generalizing params with
  | nil => rfl
  | cons row rows ih =>
    have hplaced := inOrder_place params (rows.flatten.filterMap id ++ later) row
    rw [← List.append_assoc, ← List.filterMap_append, ← List.flatten_cons] at hplaced
    change (inOrder _ (place params row).1).1 ::
      inOrderRows (inOrder _ (place params row).1).2 (placeRows (place params row).2 rows).1 = _
    rw [hplaced, ih]

end DataFabric.NumberedCells
