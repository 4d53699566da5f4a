import Mathlib.Data.Fintype.Card
import Mathlib.Logic.Function.Basic
import Mathlib.Tactic.Common

/-! An object that several parties use at once. A counter stands for the references they hold, and whoever
brings it to zero disposes of the object. Nothing locks the counter: a party lets go by reading it and, at
some later time, writing back one less, so that a decrement is lost when two of these overlap. The rules
compare the counter with the set of the parties that still hold a reference. As long as only these use the
object and let go of it, each once, nobody meets an object that is gone, whatever overlaps; exactly the last
of them disposes of it, or nobody does if a decrement was lost. -/

namespace Vsnfs.Base

/-- There is no object before it was created and after it was disposed of. `reads` has what a party that is
letting go has read of the counter and not written back. `misused` records that somebody used, took or let
go of a reference when there was no object, `overlapped` that somebody began to let go while another was at
it. -/
structure Counted (Party Object : Type) where
  count : Nat
  object : Option Object
  reads : Party → Option Nat
  misused : Bool
  overlapped : Bool

namespace Counted

variable {Party Object : Type}

def absent : Counted Party Object := ⟨0, none, fun _ => none, false, false⟩

/-- A new object, with the reference of its creator. -/
def create (object : Object) : Counted Party Object := ⟨1, some object, fun _ => none, false, false⟩

/-- A party looks at the object. -/
def use (counted : Counted Party Object) : Counted Party Object :=
  { counted with misused := counted.misused || counted.object.isNone }

/-- One more reference. -/
def take (counted : Counted Party Object) : Counted Party Object :=
  { counted.use with count := counted.count + 1 }

section Release

variable [DecidableEq Party]

/-- A party begins to let go: it reads the counter. -/
def read [Fintype Party] (counted : Counted Party Object) (party : Party) : Counted Party Object :=
  { counted.use with
    reads := Function.update counted.reads party (some counted.count)
    overlapped := counted.overlapped || decide (∃ other, other ≠ party ∧ counted.reads other ≠ none) }

/-- It writes back one less than it has read, and disposes of the object if that is none. -/
def write (counted : Counted Party Object) (party : Party) (count : Nat) :
    Counted Party Object × Option Object :=
  let reads := Function.update counted.reads party none
  if count - 1 = 0 then ({ counted.use with count := 0, object := none, reads := reads }, counted.object)
  else ({ counted.use with count := count - 1, reads := reads }, none)

end Release

/-- The counter and what was read of it are the number of references, and one party at most is letting go. -/
structure Exact (counted : Counted Party Object) (holders : Finset Party) : Prop where
  count : counted.count = holders.card
  read : ∀ party count, counted.reads party = some count → count = holders.card
  alone : ∀ party other, counted.reads party ≠ none → counted.reads other ≠ none → party = other

/-- There is a reference too many: in the counter, in what a party will write back, or once the first of two
parties has written. -/
inductive Spare (counted : Counted Party Object) (holders : Finset Party) : Prop where
  | counter (hmore : holders.card < counted.count)
  | read (party : Party) (count : Nat) (hread : counted.reads party = some count) (hmore : holders.card < count)
  | both (party other : Party) (hne : party ≠ other) (hparty : counted.reads party ≠ none)
      (hother : counted.reads other ≠ none)

/-- The counter covers the references of these parties, and what any of them has read covers them as well:
it is the counter, or more than there are references. Before an overlap all is exact; after one there is a
reference too many. -/
structure HeldBy (counted : Counted Party Object) (holders : Finset Party) : Prop where
  enough : holders.card ≤ counted.count
  read : ∀ party count, counted.reads party = some count →
    party ∈ holders ∧ holders.card ≤ count ∧ (count = counted.count ∨ holders.card < count)
  exact : counted.overlapped = false → counted.Exact holders
  spare : counted.overlapped = true → counted.Spare holders
  live : counted.object.isSome ↔ 0 < counted.count
  clean : counted.misused = false

variable {counted : Counted Party Object} {holders : Finset Party}

/-- Nobody is letting go yet. -/
theorem heldBy_of_quiet (hreads : ∀ party, counted.reads party = none) (hoverlapped : counted.overlapped = false)
    (hcount : counted.count = holders.card) (hlive : counted.object.isSome ↔ 0 < counted.count)
    (hclean : counted.misused = false) : counted.HeldBy holders := by
  have hnobody {party : Party} {count : Nat} (hread : counted.reads party = some count) : False := by
    cases (hreads party).symm.trans hread
  refine ⟨hcount.ge, fun party count hread => (hnobody hread).elim, fun _ => ?_, fun hlost => ?_, hlive, hclean⟩
  · exact ⟨hcount, fun party count hread => (hnobody hread).elim,
      fun party other hparty => absurd (hreads party) hparty⟩
  · cases hoverlapped.symm.trans hlost

theorem absent_heldBy : (absent : Counted Party Object).HeldBy (∅ : Finset Party) :=
  heldBy_of_quiet (fun _ => rfl) rfl rfl (by simp [absent]) rfl

theorem create_heldBy (object : Object) (party : Party) :
    (create object : Counted Party Object).HeldBy {party} :=
  heldBy_of_quiet (fun _ => rfl) rfl rfl (by simp [create]) rfl

/-! ### Holders -/

/-- A holder finds the object. -/
theorem HeldBy.object_of_mem (h : counted.HeldBy holders) {party : Party} (hmem : party ∈ holders) :
    ∃ object, counted.object = some object := by
  have hpos : 0 < holders.card := Finset.card_pos.mpr ⟨party, hmem⟩
  exact Option.isSome_iff_exists.mp (h.live.mpr (Nat.lt_of_lt_of_le hpos h.enough))

theorem HeldBy.use_eq (h : counted.HeldBy holders) {party : Party} (hmem : party ∈ holders) :
    counted.use = counted := by
  obtain ⟨object, hobject⟩ := h.object_of_mem hmem
  have hthere : counted.object.isNone = false := by
    rw [hobject]
    rfl
  rw [use, hthere, Bool.or_false]

/-- After an overlap the object stays, when nobody holds it any more. -/
theorem HeldBy.overlapped_iff (h : counted.HeldBy (∅ : Finset Party)) :
    counted.overlapped = true ↔ 0 < counted.count := by
  have hnobody {party : Party} (hreading : counted.reads party ≠ none) : False := by
    obtain ⟨count, hread⟩ := Option.ne_none_iff_exists'.mp hreading
    exact absurd (h.read party count hread).1 (Finset.notMem_empty party)
  constructor
  · intro hoverlapped
    cases h.spare hoverlapped with
    | counter hmore => exact hmore
    | read party count hread _ => exact (hnobody (by rw [hread]; exact Option.some_ne_none count)).elim
    | both party _ _ hparty _ => exact (hnobody hparty).elim
  · intro hpos
    by_contra hnot
    rw [(h.exact (eq_false_of_ne_true hnot)).count] at hpos
    exact absurd hpos (Nat.lt_irrefl 0)

variable [DecidableEq Party]

/-- A holder takes a reference for another party, before anybody lets go. -/
theorem HeldBy.take (h : counted.HeldBy holders) (hreads : ∀ party, counted.reads party = none)
    (hoverlapped : counted.overlapped = false) {party other : Party} (hmem : party ∈ holders)
    (hother : other ∉ holders) : counted.take.HeldBy (insert other holders) := by
  obtain ⟨object, hobject⟩ := h.object_of_mem hmem
  have hcount : counted.count + 1 = (insert other holders).card := by
    rw [Finset.card_insert_of_notMem hother, (h.exact hoverlapped).count]
  rw [Counted.take, h.use_eq hmem]
  exact heldBy_of_quiet hreads hoverlapped hcount (by simp [hobject]) h.clean

/-! ### Letting go -/

section Read

variable [Fintype Party]

theorem reads_read (counted : Counted Party Object) (party : Party) :
    (counted.read party).reads party = some counted.count :=
  Function.update_self party _ counted.reads

theorem reads_read_of_ne {party other : Party} (hne : other ≠ party) :
    (counted.read party).reads other = counted.reads other :=
  Function.update_of_ne hne _ counted.reads

theorem overlapped_read {party : Party} :
    (counted.read party).overlapped = true ↔
      counted.overlapped = true ∨ ∃ other, other ≠ party ∧ counted.reads other ≠ none := by
  simp only [read, Bool.or_eq_true, decide_eq_true_eq]

/-- A holder begins to let go. -/
theorem HeldBy.begin (h : counted.HeldBy holders) {party : Party} (hmem : party ∈ holders)
    (hfirst : counted.reads party = none) : (counted.read party).HeldBy holders := by
  have hkeeps {other : Party} (hread : counted.reads other ≠ none) :
      (counted.read party).reads other = counted.reads other :=
    reads_read_of_ne fun heq => hread (heq.symm ▸ hfirst)
  refine ⟨h.enough, fun other count hread => ?_, fun hnever => ?_, fun hlost => ?_, h.live, ?_⟩
  · by_cases heq : other = party
    · subst heq
      cases (reads_read counted other).symm.trans hread
      exact ⟨hmem, h.enough, .inl rfl⟩
    · exact h.read other count ((reads_read_of_ne heq).symm.trans hread)
  · -- nobody else is at it
    rw [← Bool.not_eq_true, overlapped_read, not_or, not_exists] at hnever
    have hexact := h.exact (eq_false_of_ne_true hnever.1)
    have honly {other : Party} (hread : (counted.read party).reads other ≠ none) : other = party := by
      by_contra hne
      rw [reads_read_of_ne hne] at hread
      exact hnever.2 other ⟨hne, hread⟩
    refine ⟨hexact.count, fun other count hread => ?_, fun one other hone hother => ?_⟩
    · obtain rfl := honly (by rw [hread]; exact Option.some_ne_none count)
      cases (reads_read counted other).symm.trans hread
      exact hexact.count
    · exact (honly hone).trans (honly hother).symm
  · rcases overlapped_read.mp hlost with hbefore | ⟨other, hne, hread⟩
    · cases h.spare hbefore with
      | counter hmore => exact .counter hmore
      | read other count hread hmore =>
          exact .read other count ((hkeeps (by rw [hread]; exact Option.some_ne_none count)).trans hread) hmore
      | both one other hne hone hother => exact .both one other hne (by rwa [hkeeps hone]) (by rwa [hkeeps hother])
    · refine .both party other hne.symm ?_ (by rwa [hkeeps hread])
      rw [reads_read]
      exact Option.some_ne_none _
  · rw [Counted.read, h.use_eq hmem]
    exact h.clean

end Read

theorem write_eq (counted : Counted Party Object) (party : Party) (count : Nat) :
    (counted.write party count).1.count = count - 1 ∧
      (counted.write party count).1.reads = Function.update counted.reads party none ∧
      (counted.write party count).1.overlapped = counted.overlapped := by
  rw [write]
  split
  · rename_i hlast
    exact ⟨hlast.symm, rfl, rfl⟩
  · exact ⟨rfl, rfl, rfl⟩

/-- What it writes is enough for the others, whatever they have done since it has read the counter. -/
theorem HeldBy.finish (h : counted.HeldBy holders) {party : Party} {count : Nat}
    (hread : counted.reads party = some count) :
    (counted.write party count).1.HeldBy (holders.erase party) := by
  obtain ⟨hmem, henough, hcounter⟩ := h.read party count hread
  have hpos : 0 < holders.card := Finset.card_pos.mpr ⟨party, hmem⟩
  have hcard : (holders.erase party).card = holders.card - 1 := Finset.card_erase_of_mem hmem
  have hreading : counted.reads party ≠ none := by
    rw [hread]
    exact Option.some_ne_none count
  obtain ⟨hcount, hreads, hoverlapped⟩ := counted.write_eq party count
  have hothers {other : Party} (hthere : (counted.write party count).1.reads other ≠ none) :
      other ≠ party ∧ (counted.write party count).1.reads other = counted.reads other := by
    have hne : other ≠ party := by
      rintro rfl
      rw [hreads] at hthere
      exact hthere (Function.update_self other none counted.reads)
    exact ⟨hne, by rw [hreads, Function.update_of_ne hne]⟩
  refine ⟨by omega, fun other others hother => ?_, fun hnever => ?_, fun hlost => ?_, ?_, ?_⟩
  · obtain ⟨hne, hsame⟩ := hothers (by rw [hother]; exact Option.some_ne_none others)
    obtain ⟨hin, hle, -⟩ := h.read other others (hsame.symm.trans hother)
    exact ⟨Finset.mem_erase.mpr ⟨hne, hin⟩, by omega, .inr (by omega)⟩
  · -- it was the only one at it
    have hexact := h.exact (hoverlapped.symm.trans hnever)
    have hnobody {other : Party} (hthere : (counted.write party count).1.reads other ≠ none) : False := by
      obtain ⟨hne, hsame⟩ := hothers hthere
      exact hne (hexact.alone other party (hsame ▸ hthere) hreading)
    refine ⟨by rw [hcount, hcard, hexact.read party count hread], fun other others hother => ?_,
      fun one other hone => (hnobody hone).elim⟩
    exact (hnobody (by rw [hother]; exact Option.some_ne_none others)).elim
  · have hstays {other : Party} (hne : other ≠ party) (hthere : counted.reads other ≠ none) :
        (counted.write party count).1.Spare (holders.erase party) := by
      obtain ⟨others, hother⟩ := Option.ne_none_iff_exists'.mp hthere
      have hle := (h.read other others hother).2.1
      refine .read other others ?_ (by omega)
      rw [hreads, Function.update_of_ne hne, hother]
    cases h.spare (hoverlapped.symm.trans hlost) with
    | counter hmore => exact .counter (by omega)
    | read other others hother hmore =>
        by_cases heq : other = party
        · subst heq
          cases hread.symm.trans hother
          exact .counter (by omega)
        · exact hstays heq (by rw [hother]; exact Option.some_ne_none others)
    | both one other hne hone hother =>
        -- one of the two is not the one that writes
        by_cases heq : one = party
        · exact hstays (fun hsame => hne (heq.trans hsame.symm)) hother
        · exact hstays heq hone
  · obtain ⟨object, hobject⟩ := h.object_of_mem hmem
    rw [write, h.use_eq hmem]
    split
    · simp
    · rename_i hmore
      simp only [hobject, Option.isSome_some, true_iff]
      exact Nat.pos_of_ne_zero hmore
  · rw [write, h.use_eq hmem]
    split <;> exact h.clean

theorem HeldBy.last_iff (h : counted.HeldBy holders) {party : Party} {count : Nat}
    (hread : counted.reads party = some count) :
    count - 1 = 0 ↔ holders = {party} ∧ counted.overlapped = false := by
  obtain ⟨hmem, henough, -⟩ := h.read party count hread
  obtain ⟨hcount, -, hoverlapped⟩ := counted.write_eq party count
  constructor
  · intro hnone
    have hone : holders.card ≤ 1 := by omega
    obtain rfl : holders = {party} :=
      Finset.eq_singleton_iff_unique_mem.mpr
        ⟨hmem, fun other hother => Finset.card_le_one.mp hone other hother party hmem⟩
    refine ⟨rfl, ?_⟩
    -- otherwise something would be left in the counter
    have hafter := h.finish hread
    rw [Finset.erase_singleton] at hafter
    have hleft := hafter.overlapped_iff
    rw [hcount, hnone, hoverlapped] at hleft
    exact eq_false_of_ne_true fun hlost => absurd (hleft.mp hlost) (Nat.lt_irrefl 0)
  · rintro ⟨rfl, hnever⟩
    rw [(h.exact hnever).read party count hread, Finset.card_singleton]

/-- **The last one disposes**, unless two of them overlapped before. -/
theorem HeldBy.disposed_iff (h : counted.HeldBy holders) {party : Party} {count : Nat}
    (hread : counted.reads party = some count) (object : Object) :
    (counted.write party count).2 = some object ↔
      counted.object = some object ∧ holders = {party} ∧ counted.overlapped = false := by
  rw [write, ← h.last_iff hread]
  split
  · rename_i hnone
    simp only [hnone, and_true]
  · rename_i hmore
    simp only [false_iff, reduceCtorEq]
    exact fun hboth => hmore hboth.2

theorem HeldBy.finish_object (h : counted.HeldBy holders) {party : Party} {count : Nat}
    (hread : counted.reads party = some count) (hothers : ¬ (holders = {party} ∧ counted.overlapped = false)) :
    (counted.write party count).1.object = counted.object := by
  rw [write, if_neg (mt (h.last_iff hread).mp hothers)]
  rfl

end Counted

end Vsnfs.Base
