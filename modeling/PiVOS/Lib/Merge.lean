-- SUMMARY: Lists merged from two others, each in its own order.
import Mathlib.Data.List.Induction

/-!
# Merges

`Merge xs ys zs` says that `zs` has the elements of `xs` and those of `ys`, each in their
order. It grows at the end, as a record of events does.
-/

inductive Merge {α : Type} : List α → List α → List α → Prop
  | nil : Merge [] [] []
  | left {xs ys zs : List α} (h : Merge xs ys zs) (x : α) : Merge (xs ++ [x]) ys (zs ++ [x])
  | right {xs ys zs : List α} (h : Merge xs ys zs) (y : α) : Merge xs (ys ++ [y]) (zs ++ [y])

namespace Merge

variable {α : Type} {xs ys zs : List α}

theorem append_left (h : Merge xs ys zs) (more : List α) : Merge (xs ++ more) ys (zs ++ more) := by
  induction more using List.reverseRecOn with
  | nil => simpa using h
  | append_singleton more x ih => simpa using ih.left x

end Merge
