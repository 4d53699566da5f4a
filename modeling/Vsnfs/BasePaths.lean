import Mathlib.Data.List.Infix
import Mathlib.Tactic.Common

/-! Path texts and their lexical resolution. A text is cut into components at every separator; walking
them keeps the names on the way, drops the empty ones and the single dots, and takes the last name off
for two dots. A place is the list of names from the root, and one place is below another when it
continues it. -/

namespace Vsnfs.Base

section Paths

variable {Item : Type} [DecidableEq Item] (sep dot : Item)

def components (text : List Item) : List (List Item) := text.splitOn sep

/-- The place one component further. -/
def walk (place : List (List Item)) (component : List Item) : List (List Item) :=
  if component = [] ∨ component = [dot] then place
  else if component = [dot, dot] then place.dropLast
  else place ++ [component]

/-- A text that starts with a separator is walked from the root, another one from where it is used. -/
def startOf (cwd : List (List Item)) (text : List Item) : List (List Item) :=
  if text.head? = some sep then [] else cwd

def resolvePath (cwd : List (List Item)) (text : List Item) : List (List Item) :=
  (components sep text).foldl (walk dot) (startOf sep cwd text)

/-- The place in front of the last component, and that component. -/
def dirOf (cwd : List (List Item)) (text : List Item) : List (List Item) :=
  (components sep text).dropLast.foldl (walk dot) (startOf sep cwd text)

def nameOf (text : List Item) : List Item := (components sep text).getLastD []

theorem components_eq (text : List Item) :
    components sep text = (components sep text).dropLast ++ [nameOf sep text] := by
  have hne : components sep text ≠ [] := List.splitOn_ne_nil sep text
  rw [nameOf, List.getLastD_eq_getLast?, List.getLast?_eq_some_getLast hne, Option.getD_some,
    List.dropLast_append_getLast hne]

theorem resolvePath_eq (cwd : List (List Item)) (text : List Item) :
    resolvePath sep dot cwd text = walk dot (dirOf sep dot cwd text) (nameOf sep text) := by
  rw [resolvePath, components_eq, List.foldl_append]
  rfl

/-! ### Texts that grow -/

theorem startOf_append {text : List Item} (hne : text ≠ []) (cwd : List (List Item)) (more : List Item) :
    startOf sep cwd (text ++ more) = startOf sep cwd text := by
  rw [startOf, startOf, List.head?_append_of_ne_nil _ hne]

/-- A separator behind a text is one empty component more. -/
theorem components_concat_sep (text : List Item) :
    components sep (text ++ [sep]) = components sep text ++ [[]] :=
  List.splitOn_append_cons_self text []

/-- A text without a separator continues the last component. -/
theorem components_append {name : List Item} (hname : sep ∉ name) (text : List Item) :
    components sep (text ++ name) = (components sep text).dropLast ++ [nameOf sep text ++ name] := by
  by_cases hsep : sep ∈ text
  · -- Cut at the last separator: what stands in front of it is not touched.
    obtain ⟨back, front, htext, hback⟩ := List.eq_append_cons_of_mem (List.mem_reverse.mpr hsep)
    have hsplit : text = front.reverse ++ sep :: back.reverse := by
      rw [← List.reverse_reverse text, htext]
      simp
    have hlast : ∀ more : List Item, sep ∉ more →
        components sep (text ++ more) = components sep front.reverse ++ [back.reverse ++ more] := by
      intro more hmore
      have hclean : sep ∉ back.reverse ++ more := by
        rw [List.mem_append, List.mem_reverse, not_or]
        exact ⟨hback, hmore⟩
      rw [hsplit, List.append_assoc, List.cons_append, components, List.splitOn_append_cons_self,
        List.splitOn_eq_singleton hclean]
      rfl
    have htext := hlast [] List.not_mem_nil
    rw [List.append_nil, List.append_nil] at htext
    rw [hlast name hname, nameOf, htext, List.dropLast_concat, List.getLastD_concat]
  · have hclean : sep ∉ text ++ name := by
      rw [List.mem_append, not_or]
      exact ⟨hsep, hname⟩
    rw [nameOf, components, components, List.splitOn_eq_singleton hclean, List.splitOn_eq_singleton hsep]
    rfl

/-- A name continues the last component, so what stands in front of it stays. -/
theorem dirOf_append {name : List Item} (hname : sep ∉ name) (text : List Item) (cwd : List (List Item)) :
    dirOf sep dot cwd (text ++ name) = dirOf sep dot cwd text := by
  have hstart : startOf sep cwd (text ++ name) = startOf sep cwd text := by
    by_cases hnil : text = []
    · rw [hnil, List.nil_append, startOf, if_neg fun hhead => hname (List.mem_of_head? hhead)]
      rfl
    · exact startOf_append sep hnil cwd name
  rw [dirOf, components_append sep hname, List.dropLast_concat, hstart, dirOf]

theorem nameOf_concat_sep (text : List Item) : nameOf sep (text ++ [sep]) = [] := by
  rw [nameOf, components_concat_sep, List.getLastD_concat]

theorem dirOf_concat_sep {text : List Item} (hne : text ≠ []) (cwd : List (List Item)) :
    dirOf sep dot cwd (text ++ [sep]) = resolvePath sep dot cwd text := by
  rw [dirOf, components_concat_sep, List.dropLast_concat, startOf_append sep hne, resolvePath]

theorem walk_nil (place : List (List Item)) : walk dot place [] = place := if_pos (Or.inl rfl)

theorem resolvePath_concat_sep {text : List Item} (hne : text ≠ []) (cwd : List (List Item)) :
    resolvePath sep dot cwd (text ++ [sep]) = resolvePath sep dot cwd text := by
  rw [resolvePath_eq, nameOf_concat_sep, walk_nil, dirOf_concat_sep sep dot hne]

/-- The last component of a text that ends in a separator is empty. -/
theorem nameOf_of_getLast? {text : List Item} (hlast : text.getLast? = some sep) : nameOf sep text = [] := by
  obtain ⟨front, rfl⟩ := List.getLast?_eq_some_iff.mp hlast
  exact nameOf_concat_sep sep front

/-! ### Below a place -/

/-- The place in front of the last name is above the whole place, and above no other. -/
theorem prefix_dropLast_iff {top place : List (List Item)} (h : top <+: place) :
    top <+: place.dropLast ↔ place ≠ top ∨ top = [] := by
  constructor
  · intro hdrop
    by_cases heq : place = top
    · right
      have hlength := hdrop.length_le
      rw [heq, List.length_dropLast] at hlength
      exact List.length_eq_zero_iff.mp (by omega)
    · exact Or.inl heq
  · rintro (hne | hnil)
    · obtain ⟨rest, rfl⟩ := h
      have hrest : rest ≠ [] := fun hnil => hne (by rw [hnil, List.append_nil])
      rw [List.dropLast_append_of_ne_nil hrest]
      exact List.prefix_append top rest.dropLast
    · rw [hnil]
      exact List.nil_prefix

/-- **One component leaves the places below `top` exactly upwards from `top` itself.** -/
theorem prefix_walk_iff {top place : List (List Item)} (h : top <+: place) (component : List Item) :
    top <+: walk dot place component ↔ ¬ (component = [dot, dot] ∧ place = top ∧ top ≠ []) := by
  rw [walk]
  by_cases hskip : component = [] ∨ component = [dot]
  · rw [if_pos hskip]
    refine iff_of_true h ?_
    rintro ⟨hdots, -⟩
    obtain hnil | hone := hskip
    · cases hnil.symm.trans hdots
    · cases hone.symm.trans hdots
  · rw [if_neg hskip]
    by_cases hdots : component = [dot, dot]
    · rw [if_pos hdots, prefix_dropLast_iff h]
      simp only [hdots, true_and, not_and_or, ne_eq, not_not]
    · rw [if_neg hdots]
      exact iff_of_true (h.trans (List.prefix_append place [component])) (fun hall => hdots hall.1)

end Paths

end Vsnfs.Base
