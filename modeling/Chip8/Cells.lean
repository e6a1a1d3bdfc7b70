/-!
# Cells

The keys, the registers, the stack and the pixels are rows of cells of a fixed
number. A cell's place is a number below it, so every place has a cell: reading
and writing cannot fail, and two rows are equal if they agree at every place.
-/
namespace Chip8

abbrev Cells (α : Type) (n : Nat) := Vector α n

namespace Cells

variable {α : Type} {n : Nat}

/-- Every cell holds the same value. -/
def fill (n : Nat) (value : α) : Cells α n := Vector.replicate n value

def read (cells : Cells α n) (place : Fin n) : α :=
  cells[place]

def write (cells : Cells α n) (place : Fin n) (value : α) : Cells α n :=
  cells.set place.val value place.isLt

/-- The cell at each place as a function of the place. -/
def tabulate (f : Fin n → α) : Cells α n := Vector.ofFn f

theorem read_fill (value : α) (place : Fin n) : (fill n value).read place = value :=
  Vector.getElem_replicate place.isLt

theorem read_write (cells : Cells α n) (place other : Fin n) (value : α) :
    (cells.write place value).read other = if place = other then value else cells.read other := by
  simp only [read, write, Fin.getElem_fin, Vector.getElem_set, Fin.ext_iff]

theorem read_tabulate (f : Fin n → α) (place : Fin n) : (tabulate f).read place = f place :=
  Vector.getElem_ofFn place.isLt

theorem ext {cells others : Cells α n} (agree : ∀ place, cells.read place = others.read place) :
    cells = others :=
  Vector.ext fun place inside => agree ⟨place, inside⟩

end Cells

end Chip8
