import TiraRdp.Lib.Bands
import TiraRdp.Lib.Memory

/-!
# Regions

`Rdp/src/libfreerdp/codec/region.c`: a set of pixels as rectangles in bands. The coordinates are
`UINT16`, and nothing but compared. A pointer into an array of rectangles is what there is from it to
the end, and a loop that moves it is a `takeWhile` and a `dropWhile`. `memory` is what the
allocations of a call find; where they find nothing the call answers `FALSE` (`none`), and what it
leaves in `dst` is not followed.

* `region16_copy_band_with_union`, `next_band`, `band_match`, `rectangle_contained_in_band`
  (`region.c:253-402`): one band.
* `region16_simplify_bands`, `region16_union_rect`, `region16_intersects_rect`,
  `region16_intersect_rect` (`region.c:404-810`), `region16_copy` (`region.c:200-230`): regions.

Results: on the rectangles of bands the loops do what `Lib.Bands` does on the bands (`copy_band`,
`copy_band_merge`, `uniteLoop_eq`, `uniteRect_rects`, `simplifyLoop_eq`, `commonRects_eq`).
-/

namespace TiraRdp

open Lib Bands

abbrev RECTANGLE_16 := Rect Nat

/-- `size`, and the rectangles behind the header. -/
structure REGION16_DATA where
  size : Nat
  rects : List RECTANGLE_16
  deriving Repr, DecidableEq

structure REGION16 where
  extents : RECTANGLE_16
  data : REGION16_DATA
  deriving Repr, DecidableEq

namespace Region

/-- `sizeof(REGION16_DATA) + (nbItems * sizeof(RECTANGLE_16))`: two `long`s, four `UINT16`s each. -/
def allocSize (nbItems : Nat) : Nat := 8 + nbItems * 8

def empty_region : REGION16_DATA := ⟨0, []⟩

/-- `region16_init` and `region16_clear`. -/
def region16_init : REGION16 := ⟨⟨0, 0, 0, 0⟩, empty_region⟩

def region16_n_rects (region : REGION16) : Nat := region.data.rects.length

def region16_is_empty (region : REGION16) : Bool := region16_n_rects region = 0

def rectangle_is_empty (rect : RECTANGLE_16) : Bool := rect.left = rect.right || rect.top = rect.bottom

/-- Whether there is one, and `*dst`. -/
def rectangles_intersection (r1 r2 : RECTANGLE_16) : Bool × RECTANGLE_16 :=
  let dst : RECTANGLE_16 :=
    ⟨max r1.left r2.left, max r1.top r2.top, min r1.right r2.right, min r1.bottom r2.bottom⟩
  (dst.left < dst.right && dst.top < dst.bottom, dst)

def rectangles_intersects (r1 r2 : RECTANGLE_16) : Bool := (rectangles_intersection r1 r2).1

/-- `region16_copy`. `CopyMemory` takes `size` bytes into room for the rectangles. -/
def region16_copy (memory : Bool) (src : REGION16) : Except Halt (Option REGION16) :=
  if src.data.size = 0 then .ok (some ⟨src.extents, empty_region⟩)
  else if ¬ memory then .ok none
  else if src.data.size = allocSize (region16_n_rects src) then .ok (some ⟨src.extents, src.data⟩)
  else .error .outside

/-! ## One band -/

/-- A rectangle in other rows. -/
def inRows (newTop newBottom : Nat) (rect : RECTANGLE_16) : RECTANGLE_16 :=
  { rect with top := newTop, bottom := newBottom }

/-- Where the overlap starts: `startOverlap->left`. -/
def startOverlap (refY : Nat) (unionRect : RECTANGLE_16) : List RECTANGLE_16 → Nat
  | [] => unionRect.left
  | src :: _ => if src.top = refY ∧ src.left < unionRect.left then src.left else unionRect.left

/-- Where it ends, `endOverlap->right`, and `src` behind it. -/
def endOverlap (refY : Nat) (unionRect : RECTANGLE_16) :
    List RECTANGLE_16 → Nat × List RECTANGLE_16
  | [] => (unionRect.right, [])
  | src :: rest =>
    if src.top = refY ∧ src.left < unionRect.right then (src.right, rest)
    else (unionRect.right, src :: rest)

/-- `region16_copy_band_with_union`: what is written to `dst`, and `*srcPtr`. -/
def region16_copy_band_with_union (src : List RECTANGLE_16) (newTop newBottom : Nat)
    (unionRect : Option RECTANGLE_16) : List RECTANGLE_16 × List RECTANGLE_16 :=
  match src with
  | [] => ([], [])
  | first :: _ =>
    let refY := first.top
    match unionRect with
    | none =>
      ((src.takeWhile fun r => r.top = refY).map (inRows newTop newBottom),
        src.dropWhile fun r => r.top = refY)
    | some rect =>
      -- items before unionRect
      let before := src.takeWhile fun r => r.top = refY && r.right < rect.left
      let src := src.dropWhile fun r => r.top = refY && r.right < rect.left
      let left := startOverlap refY rect src
      -- items overlapping with unionRect
      let src := src.dropWhile fun r => r.top = refY && r.right < rect.right
      let (right, src) := endOverlap refY rect src
      (before.map (inRows newTop newBottom) ++ ⟨left, newTop, right, newBottom⟩ ::
          (src.takeWhile fun r => r.top = refY).map (inRows newTop newBottom),
        src.dropWhile fun r => r.top = refY)

/-- `next_band`: the items of the first band, and what is behind it. -/
def next_band (band1 : List RECTANGLE_16) : List RECTANGLE_16 × List RECTANGLE_16 :=
  match band1 with
  | [] => ([], [])
  | first :: _ =>
    (band1.takeWhile fun r => r.top = first.top, band1.dropWhile fun r => r.top = first.top)

/-- The loop of `band_match`, from the items of the first band left on. -/
def bandMatchLoop (refBand2 : Nat) : List RECTANGLE_16 → List RECTANGLE_16 → Bool
  | [], [] => true
  | [], r :: _ => r.top ≠ refBand2
  | _ :: _, [] => false
  | r1 :: band1, r2 :: band2 =>
    if r2.top = refBand2 then
      if r1.left ≠ r2.left || r1.right ≠ r2.right then false else bandMatchLoop refBand2 band1 band2
    else false

/-- `band_match`: the items of the first band, and what there is from the second on. -/
def band_match (band1 band2 : List RECTANGLE_16) : Bool :=
  match band2 with
  | [] => false
  | first :: _ => bandMatchLoop first.top band1 band2

def rectangle_contained_in_band (band : List RECTANGLE_16) (rect : RECTANGLE_16) : Bool :=
  match band with
  | [] => false
  | first :: _ =>
    if first.top > rect.top || rect.bottom > first.bottom then false
    else (band.takeWhile fun r => r.top = first.top && r.left ≤ rect.left).any fun r =>
      rect.right ≤ r.right

/-! ## Regions -/

/-- The loop of `region16_simplify_bands`: the bands that are done with, and `band1`. -/
def simplifyLoop : Nat → List RECTANGLE_16 → List RECTANGLE_16 → Except Halt (List RECTANGLE_16)
  | 0, _, _ => .error .hang
  | _ + 1, before, [] => .ok before
  | n + 1, before, first :: more =>
    let (items, band2) := next_band (first :: more)
    match band2 with
    | [] => .ok (before ++ first :: more)
    | second :: _ =>
      if first.bottom = second.top ∧ band_match items band2 = true then
        -- the items of band1 get longer, and what is behind band2 is moved over it
        simplifyLoop n before (items.map (fun tmp => { tmp with bottom := second.bottom }) ++
          band2.drop items.length)
      else simplifyLoop n (before ++ items) band2

def region16_simplify_bands (memory : Bool) (region : REGION16) : Except Halt (Option REGION16) :=
  if region16_n_rects region < 2 then .ok (some region)
  else do
    let final ← simplifyLoop (region16_n_rects region) [] region.data.rects
    if final.length ≠ region16_n_rects region then
      if memory then .ok (some { region with data := ⟨allocSize final.length, final⟩ }) else .ok none
    else .ok (some { region with data := ⟨region.data.size, final⟩ })

/-- What the loop of `region16_union_rect` writes for a band, `nextBand`, and `topInterBand`. -/
def uniteBand (rect : RECTANGLE_16) (currentBand : List RECTANGLE_16) :
    List RECTANGLE_16 × List RECTANGLE_16 × Nat :=
  match currentBand with
  | [] => ([], [], rect.top)
  | first :: _ =>
    if first.bottom ≤ rect.top ∨ rect.bottom ≤ first.top ∨
        rectangle_contained_in_band currentBand rect = true then
      let copied := region16_copy_band_with_union currentBand first.top first.bottom none
      (copied.1, copied.2, rect.top)
    else
      let mergeTop := if rect.top > first.top then rect.top else first.top
      let mergeBottom := if rect.bottom < first.bottom then rect.bottom else first.bottom
      let split := if rect.top > first.top then
        (region16_copy_band_with_union currentBand first.top rect.top none).1 else []
      let merged := region16_copy_band_with_union currentBand mergeTop mergeBottom (some rect)
      if rect.bottom < first.bottom then
        let copied := region16_copy_band_with_union currentBand mergeBottom first.bottom none
        (split ++ merged.1 ++ copied.1, copied.2, first.bottom)
      else (split ++ merged.1, merged.2, first.bottom)

/-- The piece of `rect` between a band that ends at `bottom` and the next one. -/
def interBand (rect : RECTANGLE_16) (bottom topInterBand : Nat) (nextBand : List RECTANGLE_16) :
    List RECTANGLE_16 :=
  match nextBand with
  | [] => []
  | next :: _ =>
    if next.top ≠ bottom ∧ rect.bottom > bottom ∧ rect.top < next.top then
      [⟨rect.left, topInterBand, rect.right, min next.top rect.bottom⟩]
    else []

/-- The loop of `region16_union_rect`: what is written from `currentBand` on. -/
def uniteLoop (rect : RECTANGLE_16) : Nat → List RECTANGLE_16 → Except Halt (List RECTANGLE_16)
  | _, [] => .ok []
  | 0, _ :: _ => .error .hang
  | n + 1, first :: more => do
    let (written, nextBand, topInterBand) := uniteBand rect (first :: more)
    let rest ← uniteLoop rect n nextBand
    .ok (written ++ interBand rect first.bottom topInterBand nextBand ++ rest)

def region16_union_rect (memory : Bool) (src : REGION16) (rect : RECTANGLE_16) :
    Except Halt (Option REGION16) :=
  if ¬ memory then .ok none
  else if region16_n_rects src = 0 then .ok (some ⟨rect, ⟨allocSize 1, [rect]⟩⟩)
  else do
    let above : List RECTANGLE_16 :=
      if rect.top < src.extents.top then
        [⟨rect.left, rect.top, rect.right, min src.extents.top rect.bottom⟩]
      else []
    let middle ← uniteLoop rect (region16_n_rects src) src.data.rects
    let below : List RECTANGLE_16 :=
      if src.extents.bottom < rect.bottom then
        [⟨rect.left, max src.extents.bottom rect.top, rect.right, rect.bottom⟩]
      else []
    let newItems := above ++ middle ++ below
    -- what newItems has room for
    if newItems.length ≤ (1 + region16_n_rects src) * 4 then
      region16_simplify_bands memory
        ⟨⟨min rect.left src.extents.left, min rect.top src.extents.top,
          max rect.right src.extents.right, max rect.bottom src.extents.bottom⟩,
          ⟨allocSize newItems.length, newItems⟩⟩
    else .error .outside

def region16_intersects_rect (src : REGION16) (arg2 : RECTANGLE_16) : Bool :=
  if region16_n_rects src = 0 then false
  else if region16_n_rects src = 1 then rectangles_intersects src.extents arg2
  else if ¬ rectangles_intersects src.extents arg2 then false
  else (src.data.rects.takeWhile fun rect => arg2.bottom > rect.top).any fun rect =>
    rectangles_intersects rect arg2

/-- `newExtents` with one rectangle more. -/
def growExtents (newExtents common : RECTANGLE_16) : RECTANGLE_16 :=
  if rectangle_is_empty newExtents then common
  else ⟨min common.left newExtents.left, min common.top newExtents.top,
    max common.right newExtents.right, max common.bottom newExtents.bottom⟩

/-- What is kept of a rectangle. -/
def commonRect (rect src : RECTANGLE_16) : Option RECTANGLE_16 :=
  let (intersects, common) := rectangles_intersection src rect
  if intersects then some common else none

/-- The rectangles that are kept. -/
def commonRects (rect : RECTANGLE_16) (rects : List RECTANGLE_16) : List RECTANGLE_16 :=
  (rects.takeWhile fun src => rect.bottom > src.top).filterMap (commonRect rect)

def region16_intersect_rect (memory : Bool) (src : REGION16) (rect : RECTANGLE_16) :
    Except Halt (Option REGION16) :=
  if region16_n_rects src = 0 then .ok (some region16_init)
  else if region16_n_rects src = 1 then
    let (intersects, common) := rectangles_intersection src.extents rect
    if intersects then region16_union_rect memory region16_init common
    else .ok (some region16_init)
  else if ¬ memory then .ok none
  else
    let newItems := commonRects rect src.data.rects
    -- what newItems has room for
    if newItems.length ≤ region16_n_rects src then
      region16_simplify_bands memory
        ⟨newItems.foldl growExtents ⟨0, 0, 0, 0⟩, ⟨allocSize newItems.length, newItems⟩⟩
    else .error .outside

/-! ## On the rectangles of bands -/

section Bands

variable {top bottom refY newTop newBottom : Nat} {items : List (Nat × Nat)}
  {rest : List RECTANGLE_16} {rect : RECTANGLE_16}

/-- The rectangle of an interval. -/
def itemRect (top bottom : Nat) (i : Nat × Nat) : RECTANGLE_16 := ⟨i.1, top, i.2, bottom⟩

/-- What is behind a band starts another. -/
def NewBand (refY : Nat) : List RECTANGLE_16 → Prop
  | [] => True
  | r :: _ => r.top ≠ refY

theorem rects_eq (b : Band Nat) : b.rects = b.items.map (itemRect b.top b.bottom) := rfl

/-- A loop over the items of a band stops behind it at the latest. -/
theorem takeWhile_items (items : List (Nat × Nat)) {p : RECTANGLE_16 → Bool} {q : Nat × Nat → Bool}
    (hp : ∀ i, p (itemRect top bottom i) = q i) (hrest : ∀ r ∈ rest.head?, p r = false) :
    (items.map (itemRect top bottom) ++ rest).takeWhile p =
      (items.takeWhile q).map (itemRect top bottom) := by
  induction items with
  | nil =>
    cases rest with
    | nil => rfl
    | cons r rest => exact List.takeWhile_cons_of_neg (by simp [hrest r rfl])
  | cons i items ih =>
    rw [List.map_cons, List.cons_append, List.takeWhile_cons, List.takeWhile_cons, hp i, ih]
    cases q i <;> rfl

theorem dropWhile_items (items : List (Nat × Nat)) {p : RECTANGLE_16 → Bool} {q : Nat × Nat → Bool}
    (hp : ∀ i, p (itemRect top bottom i) = q i) (hrest : ∀ r ∈ rest.head?, p r = false) :
    (items.map (itemRect top bottom) ++ rest).dropWhile p =
      (items.dropWhile q).map (itemRect top bottom) ++ rest := by
  induction items with
  | nil =>
    cases rest with
    | nil => rfl
    | cons r rest => exact List.dropWhile_cons_of_neg (by simp [hrest r rfl])
  | cons i items ih =>
    rw [List.map_cons, List.cons_append, List.dropWhile_cons, List.dropWhile_cons, hp i, ih]
    cases q i <;> rfl

theorem NewBand.head_ne (h : NewBand refY rest) {p : RECTANGLE_16 → Bool}
    (hp : ∀ r, p r = true → r.top = refY) : ∀ r ∈ rest.head?, p r = false := by
  intro r hr
  cases rest with
  | nil => exact nomatch hr
  | cons first rest =>
    obtain rfl := Option.some.inj hr
    exact Bool.eq_false_iff.mpr fun hpr => h (hp first hpr)

/-- A loop that stays in the band stops behind it. -/
theorem NewBand.head_and (h : NewBand refY rest) (p : RECTANGLE_16 → Bool) :
    ∀ r ∈ rest.head?, (decide (r.top = refY) && p r) = false :=
  h.head_ne (p := fun r => decide (r.top = refY) && p r)
    fun _ hr => of_decide_eq_true (Bool.and_eq_true_iff.mp hr).1

theorem takeWhile_band (bottom : Nat) (items : List (Nat × Nat)) (h : NewBand top rest) :
    (items.map (itemRect top bottom) ++ rest).takeWhile (fun r => r.top = top) =
      items.map (itemRect top bottom) := by
  rw [takeWhile_items items (q := fun _ => true) (fun _ => decide_eq_true rfl)
    (h.head_ne fun _ hr => of_decide_eq_true hr)]
  congr 1
  exact List.takeWhile_eq_self_iff.mpr fun _ _ => rfl

theorem dropWhile_band (bottom : Nat) (items : List (Nat × Nat)) (h : NewBand top rest) :
    (items.map (itemRect top bottom) ++ rest).dropWhile (fun r => r.top = top) = rest := by
  rw [dropWhile_items items (q := fun _ => true) (fun _ => decide_eq_true rfl)
    (h.head_ne fun _ hr => of_decide_eq_true hr), List.dropWhile_eq_nil_iff.mpr fun _ _ => rfl]
  rfl

theorem map_inRows : (items.map (itemRect top bottom)).map (inRows newTop newBottom) =
    items.map (itemRect newTop newBottom) := by
  rw [List.map_map]
  rfl

/-- A band is copied into other rows. -/
theorem copy_band (bottom newTop newBottom : Nat) (hne : items ≠ []) (h : NewBand top rest) :
    region16_copy_band_with_union (items.map (itemRect top bottom) ++ rest) newTop newBottom none =
      (items.map (itemRect newTop newBottom), rest) := by
  obtain ⟨i, more, rfl⟩ := List.exists_cons_of_ne_nil hne
  have htake := takeWhile_band bottom (i :: more) h
  have hdrop := dropWhile_band bottom (i :: more) h
  rw [List.map_cons, List.cons_append] at htake hdrop ⊢
  simp only [region16_copy_band_with_union]
  have htop : (itemRect top bottom i).top = top := rfl
  rw [htop, htake, hdrop, ← List.map_cons, map_inRows]

theorem startOverlap_items (h : NewBand top rest) :
    startOverlap top rect (items.map (itemRect top bottom) ++ rest) =
      mergeStart rect.left items := by
  cases items with
  | nil =>
    cases rest with
    | nil => rfl
    | cons r rest => exact if_neg fun hr => h hr.1
  | cons i items => simp [startOverlap, mergeStart, itemRect]

/-- What the overlap ends with, and the items behind it. -/
theorem endOverlap_items (rect : RECTANGLE_16) (bottom start : Nat) (items : List (Nat × Nat))
    (h : NewBand top rest) :
    ∃ right after, endOverlap top rect (items.map (itemRect top bottom) ++ rest) =
        (right, after.map (itemRect top bottom) ++ rest) ∧
      mergeEnd start rect.right items = (start, right) :: after := by
  cases items with
  | nil =>
    refine ⟨rect.right, [], ?_, rfl⟩
    cases rest with
    | nil => rfl
    | cons r rest => exact if_neg fun hr => h hr.1
  | cons i items =>
    by_cases hover : i.1 < rect.right
    · exact ⟨i.2, items, if_pos ⟨rfl, hover⟩, if_pos hover⟩
    · exact ⟨rect.right, i :: items, if_neg fun hr => hover hr.2, if_neg hover⟩

/-- A band is copied with a rectangle merged into it. -/
theorem copy_band_merge (rect : RECTANGLE_16) (bottom newTop newBottom : Nat) (hne : items ≠ [])
    (h : NewBand top rest) :
    region16_copy_band_with_union (items.map (itemRect top bottom) ++ rest) newTop newBottom
        (some rect) =
      ((merge rect.left rect.right items).map (itemRect newTop newBottom), rest) := by
  have hends (bound : Nat) (i : Nat × Nat) :
      (decide ((itemRect top bottom i).top = top) &&
        decide ((itemRect top bottom i).right < bound)) = endsBefore bound i := by
    rw [Bool.eq_iff_iff, endsBefore_iff, Bool.and_eq_true]
    exact (and_iff_right (decide_eq_true rfl)).trans decide_eq_true_iff
  have hstops (bound : Nat) := h.head_and fun r => decide (r.right < bound)
  obtain ⟨i, more, rfl⟩ := List.exists_cons_of_ne_nil hne
  have hbefore := takeWhile_items (i :: more) (hends rect.left) (hstops rect.left)
  have hover := dropWhile_items (i :: more) (hends rect.left) (hstops rect.left)
  have hinside := dropWhile_items ((i :: more).dropWhile (endsBefore rect.left))
    (hends rect.right) (hstops rect.right)
  obtain ⟨right, after, hend, hmerge⟩ := endOverlap_items rect bottom
    (mergeStart rect.left ((i :: more).dropWhile (endsBefore rect.left)))
    (((i :: more).dropWhile (endsBefore rect.left)).dropWhile (endsBefore rect.right)) h
  have htop : (itemRect top bottom i).top = top := rfl
  rw [List.map_cons, List.cons_append] at hbefore hover ⊢
  simp only [region16_copy_band_with_union, htop, hbefore, hover, hinside, startOverlap_items h,
    hend, takeWhile_band bottom after h, dropWhile_band bottom after h, map_inRows, merge, hmerge,
    List.map_append, List.map_cons]
  rfl

theorem next_band_items (bottom : Nat) (hne : items ≠ []) (h : NewBand top rest) :
    next_band (items.map (itemRect top bottom) ++ rest) =
      (items.map (itemRect top bottom), rest) := by
  obtain ⟨i, more, rfl⟩ := List.exists_cons_of_ne_nil hne
  have htake := takeWhile_band bottom (i :: more) h
  have hdrop := dropWhile_band bottom (i :: more) h
  rw [List.map_cons, List.cons_append] at htake hdrop ⊢
  have htop : (itemRect top bottom i).top = top := rfl
  simp only [next_band, htop, htake, hdrop]

theorem bandMatchLoop_items {top' bottom' : Nat} (items more : List (Nat × Nat))
    (h : NewBand top' rest) :
    bandMatchLoop top' (items.map (itemRect top bottom))
      (more.map (itemRect top' bottom') ++ rest) = true ↔ items = more := by
  induction items generalizing more with
  | nil =>
    cases more with
    | nil =>
      cases rest with
      | nil => simp [bandMatchLoop]
      | cons r rest =>
        have hr : r.top ≠ top' := h
        simp [bandMatchLoop, hr]
    | cons j more => simp [bandMatchLoop, itemRect]
  | cons i items ih =>
    cases more with
    | nil =>
      cases rest with
      | nil => simp [bandMatchLoop]
      | cons r rest =>
        have hr : r.top ≠ top' := h
        simp [bandMatchLoop, hr]
    | cons j more =>
      simp only [List.map_cons, List.cons_append, bandMatchLoop, itemRect, if_true]
      by_cases hleft : i.1 = j.1 <;> by_cases hright : i.2 = j.2 <;>
        simp_all [Prod.ext_iff]

/-- The bands match when they have the same intervals. -/
theorem band_match_items (top bottom bottom' : Nat) (items : List (Nat × Nat)) {top' : Nat}
    {more : List (Nat × Nat)} (hne : more ≠ []) (h : NewBand top' rest) :
    band_match (items.map (itemRect top bottom)) (more.map (itemRect top' bottom') ++ rest) = true ↔
      items = more := by
  obtain ⟨j, more, rfl⟩ := List.exists_cons_of_ne_nil hne
  exact bandMatchLoop_items items (j :: more) h

/-- The interval starts by the point. -/
def startsBy (bound : Nat) (i : Nat × Nat) : Bool := i.1 ≤ bound

theorem startsBy_iff {bound : Nat} {i : Nat × Nat} : startsBy bound i = true ↔ i.1 ≤ bound :=
  decide_eq_true_iff

/-- In items that are in order, those that start by a point come first. -/
theorem mem_takeWhile_startsBy (h : Apart items) {i : Nat × Nat} {bound : Nat} (hi : i ∈ items)
    (hle : i.1 ≤ bound) : i ∈ items.takeWhile (startsBy bound) := by
  induction items with
  | nil => exact absurd hi List.not_mem_nil
  | cons j items ih =>
    obtain ⟨hj, hfirst, hrest⟩ := apart_cons.mp h
    rcases List.mem_cons.mp hi with rfl | hmem
    · rw [List.takeWhile_cons_of_pos (startsBy_iff.mpr hle)]
      exact List.mem_cons_self
    · have hjle : j.1 ≤ bound := hj.le.trans ((hfirst i hmem).trans hle)
      rw [List.takeWhile_cons_of_pos (startsBy_iff.mpr hjle)]
      exact List.mem_cons_of_mem j (ih hrest hmem)

/-- In items that are in order, the one that contains the rectangle starts no later than it. -/
theorem contained_items (rect : RECTANGLE_16) {b : Band Nat} (hb : b.Proper)
    (h : NewBand b.top rest) :
    rectangle_contained_in_band (b.rects ++ rest) rect = true ↔ b.Contains rect := by
  have hp (i : Nat × Nat) : (decide ((itemRect b.top b.bottom i).top = b.top) &&
      decide ((itemRect b.top b.bottom i).left ≤ rect.left)) = startsBy rect.left i := by
    unfold startsBy itemRect
    rw [decide_eq_true rfl, Bool.true_and]
  have htake := takeWhile_items b.items hp (h.head_and fun r => decide (r.left ≤ rect.left))
  obtain ⟨i, more, hitems⟩ := List.exists_cons_of_ne_nil hb.nonempty
  have hhead : b.rects ++ rest =
      itemRect b.top b.bottom i :: (more.map (itemRect b.top b.bottom) ++ rest) := by
    rw [rects_eq, hitems]
    rfl
  rw [← rects_eq, hhead] at htake
  rw [hhead, rectangle_contained_in_band]
  have htop : (itemRect b.top b.bottom i).top = b.top := rfl
  have hbottom : (itemRect b.top b.bottom i).bottom = b.bottom := rfl
  rw [htop, hbottom, htake]
  unfold Band.Contains
  by_cases hrows : b.top > rect.top ∨ rect.bottom > b.bottom
  · have hcond : (decide (b.top > rect.top) || decide (rect.bottom > b.bottom)) = true := by
      simpa using hrows
    rw [if_pos hcond]
    simp only [Bool.false_eq_true, false_iff]
    rintro ⟨h₁, h₂, -⟩
    omega
  · have hcond : ¬ (decide (b.top > rect.top) || decide (rect.bottom > b.bottom)) = true := by
      simpa using hrows
    rw [if_neg hcond, List.any_map, List.any_eq_true]
    constructor
    · rintro ⟨j, hj, hright⟩
      refine ⟨by omega, by omega, j, List.takeWhile_subset _ hj, ?_, of_decide_eq_true hright⟩
      exact startsBy_iff.mp (List.mem_takeWhile_imp hj)
    · rintro ⟨-, -, j, hj, hleft, hright⟩
      exact ⟨j, mem_takeWhile_startsBy hb.apart hj hleft, decide_eq_true hright⟩

end Bands

/-! ## The loops -/

section Loops

variable {b : Band Nat} {bs : List (Band Nat)} {rect : RECTANGLE_16}

/-- What is behind the first of some bands. -/
theorem newBand_of_banded (h : Banded (b :: bs)) : NewBand b.top (bs.flatMap Band.rects) := by
  cases bs with
  | nil => trivial
  | cons next bs =>
    obtain ⟨hb, hfirst, hrest⟩ := banded_cons.mp h
    have hnext := (banded_cons.mp hrest).1
    obtain ⟨i, more, hitems⟩ := List.exists_cons_of_ne_nil hnext.nonempty
    have hbelow := hfirst next List.mem_cons_self
    have hhigh := hb.high
    rw [List.flatMap_cons, rects_eq, hitems]
    show next.top ≠ b.top
    omega

theorem flatMap_rects_cons : (b :: bs).flatMap Band.rects =
    b.items.map (itemRect b.top b.bottom) ++ bs.flatMap Band.rects := List.flatMap_cons

/-- The first rectangle of a band. -/
theorem exists_first (hb : b.Proper) (rest : List RECTANGLE_16) :
    ∃ first more, b.items.map (itemRect b.top b.bottom) ++ rest = first :: more ∧
      first.top = b.top ∧ first.bottom = b.bottom := by
  obtain ⟨i, items, hitems⟩ := List.exists_cons_of_ne_nil hb.nonempty
  exact ⟨itemRect b.top b.bottom i, items.map (itemRect b.top b.bottom) ++ rest,
    by rw [hitems]; rfl, rfl, rfl⟩

/-- What is written for a band. -/
theorem uniteBand_eq (rect : RECTANGLE_16) {rest : List RECTANGLE_16} (hb : b.Proper)
    (h : NewBand b.top rest) :
    uniteBand rect (b.items.map (itemRect b.top b.bottom) ++ rest) =
      ((b.unite rect).flatMap Band.rects, rest, if b.Passes rect then rect.top else b.bottom) := by
  obtain ⟨first, more, heq, htop, hbottom⟩ := exists_first hb rest
  have hcontained := contained_items rect hb h
  have hcopy (newTop newBottom : Nat) := copy_band b.bottom newTop newBottom hb.nonempty h
  have hmerge (newTop newBottom : Nat) :=
    copy_band_merge rect b.bottom newTop newBottom hb.nonempty h
  rw [rects_eq, heq] at hcontained
  rw [heq] at hcopy hmerge ⊢
  unfold uniteBand
  simp only [htop, hbottom, hcopy, hmerge, hcontained]
  unfold Band.unite
  by_cases hpass : b.Passes rect
  · have hcond : b.bottom ≤ rect.top ∨ rect.bottom ≤ b.top ∨ b.Contains rect := hpass
    rw [if_pos hcond, if_pos hpass, if_pos hpass, List.flatMap_singleton, rects_eq]
  · have hcond : ¬ (b.bottom ≤ rect.top ∨ rect.bottom ≤ b.top ∨ b.Contains rect) := hpass
    have hmergeTop : (if rect.top > b.top then rect.top else b.top) = max b.top rect.top := by
      split <;> omega
    have hmergeBottom : (if rect.bottom < b.bottom then rect.bottom else b.bottom) =
        min b.bottom rect.bottom := by
      split <;> omega
    rw [if_neg hcond, if_neg hpass, if_neg hpass, hmergeTop, hmergeBottom]
    rw [List.flatMap_append, List.flatMap_cons]
    by_cases hbelow : rect.bottom < b.bottom
    · rw [if_pos hbelow, if_pos hbelow, min_eq_right hbelow.le]
      split <;> simp [rects_eq]
    · rw [if_neg hbelow, if_neg hbelow]
      split <;> simp [rects_eq]

/-- What is written behind it. -/
theorem interBand_eq (rect : RECTANGLE_16) (topInterBand : Nat) (h : Banded (b :: bs))
    (htop : b.bottom < rect.bottom → topInterBand = max b.bottom rect.top) :
    interBand rect b.bottom topInterBand (bs.flatMap Band.rects) =
      (gap rect b bs).flatMap Band.rects := by
  cases bs with
  | nil => rfl
  | cons next bs =>
    obtain ⟨-, -, hrest⟩ := banded_cons.mp h
    obtain ⟨first, more, heq, hfirst, -⟩ :=
      exists_first (banded_cons.mp hrest).1 (bs.flatMap Band.rects)
    rw [flatMap_rects_cons, heq, interBand, gap, hfirst]
    by_cases hcond : next.top ≠ b.bottom ∧ b.bottom < rect.bottom ∧ rect.top < next.top
    · rw [if_pos hcond, if_pos hcond, htop hcond.2.1]
      rfl
    · rw [if_neg hcond, if_neg hcond]
      rfl

/-- **The loop of the union** does on rectangles what uniting does on bands. -/
theorem uniteLoop_eq (rect : RECTANGLE_16) {n : Nat} (h : Banded bs) (hn : bs.length ≤ n) :
    uniteLoop rect n (bs.flatMap Band.rects) = .ok ((uniteAll rect bs).flatMap Band.rects) := by
  induction bs generalizing n with
  | nil =>
    cases n <;> rfl
  | cons b bs ih =>
    obtain ⟨hb, -, hrest⟩ := banded_cons.mp h
    have hband := uniteBand_eq rect hb (newBand_of_banded h)
    have htopInter : b.bottom < rect.bottom →
        (if b.Passes rect then rect.top else b.bottom) = max b.bottom rect.top := by
      intro hlt
      have hhigh := hb.high
      split
      · next hpass =>
        rcases hpass with habove | hbelow | ⟨-, hbelow, -⟩
        · exact (max_eq_right habove).symm
        · omega
        · omega
      · next hpass => exact (max_eq_left (not_le.mp fun hle => hpass (Or.inl hle)).le).symm
    have hbetween := interBand_eq rect _ h htopInter
    cases n with
    | zero => exact absurd hn (Nat.not_succ_le_zero _)
    | succ n =>
      obtain ⟨first, more, heq, htop, hbottom⟩ := exists_first hb (bs.flatMap Band.rects)
      rw [heq] at hband
      rw [flatMap_rects_cons, heq, uniteLoop, hband, uniteAll, List.flatMap_append,
        List.flatMap_append]
      simp only [ih hrest (Nat.le_of_succ_le_succ hn), hbottom, hbetween, bind, Except.bind]

/-- What is written above and below goes with it. -/
theorem uniteRect_rects (rect box : RECTANGLE_16) (bs : List (Band Nat)) :
    (uniteRect rect box bs).flatMap Band.rects =
      (if rect.top < box.top then
        [(⟨rect.left, rect.top, rect.right, min box.top rect.bottom⟩ : RECTANGLE_16)]
      else []) ++ (uniteAll rect bs).flatMap Band.rects ++
      (if box.bottom < rect.bottom then
        [(⟨rect.left, max box.bottom rect.top, rect.right, rect.bottom⟩ : RECTANGLE_16)]
      else []) := by
  rw [uniteRect, List.flatMap_append, List.flatMap_append]
  split <;> split <;> rfl

/-- **The loop of the simplification** does on rectangles what coalescing does on bands. -/
theorem simplifyLoop_eq {n : Nat} (before : List RECTANGLE_16) (h : Banded (b :: bs))
    (hn : bs.length < n) :
    simplifyLoop n before ((b :: bs).flatMap Band.rects) =
      .ok (before ++ (coalesceFrom b bs).flatMap Band.rects) := by
  induction bs generalizing b n before with
  | nil =>
    obtain ⟨hb, -, -⟩ := banded_cons.mp h
    obtain ⟨first, more, heq, -, -⟩ := exists_first hb []
    have hnext := next_band_items b.bottom hb.nonempty (newBand_of_banded h)
    obtain ⟨n, rfl⟩ := Nat.exists_eq_succ_of_ne_zero (Nat.ne_zero_of_lt hn)
    rw [List.flatMap_nil, heq] at hnext
    rw [flatMap_rects_cons, List.flatMap_nil, heq, simplifyLoop]
    simp only [hnext]
    rw [coalesceFrom, List.flatMap_singleton, rects_eq, ← heq, List.append_nil]
  | cons next bs ih =>
    obtain ⟨hb, hfirst, hrest⟩ := banded_cons.mp h
    obtain ⟨hnext, hbelow, hbs⟩ := banded_cons.mp hrest
    have hband := next_band_items b.bottom hb.nonempty (newBand_of_banded h)
    obtain ⟨first, more, heq, htop, hbottom⟩ := exists_first hb ((next :: bs).flatMap Band.rects)
    obtain ⟨second, others, heq', htop', hbottom'⟩ := exists_first hnext (bs.flatMap Band.rects)
    have hmatch := band_match_items b.top b.bottom next.bottom b.items hnext.nonempty
      (newBand_of_banded hrest)
    obtain ⟨n, rfl⟩ := Nat.exists_eq_succ_of_ne_zero (Nat.ne_zero_of_lt hn)
    rw [heq, flatMap_rects_cons, heq'] at hband
    rw [heq'] at hmatch
    rw [flatMap_rects_cons (b := b), heq, simplifyLoop]
    simp only [hband, hbottom, hbottom', htop', hmatch]
    rw [coalesceFrom]
    by_cases hjoin : b.Joins next
    · obtain ⟨htouch, hitems⟩ := hjoin
      have hwhole : Banded (⟨b.top, next.bottom, b.items⟩ :: bs) :=
        banded_cons.mpr ⟨⟨hb.high.trans (htouch ▸ hnext.high), hb.nonempty, hb.apart⟩, hbelow, hbs⟩
      have hdrop : (second :: others).drop (b.items.map (itemRect b.top b.bottom)).length =
          bs.flatMap Band.rects := by
        rw [← heq', hitems, List.drop_left' (by rw [List.length_map, List.length_map])]
      have hlonger : (b.items.map (itemRect b.top b.bottom)).map
          (fun tmp => ({ tmp with bottom := next.bottom } : RECTANGLE_16)) =
          b.items.map (itemRect b.top next.bottom) := by
        rw [List.map_map]
        rfl
      rw [if_pos ⟨htouch, hitems⟩, if_pos ⟨htouch, hitems⟩, hdrop, hlonger,
        ← ih before hwhole (Nat.lt_of_succ_lt_succ hn), flatMap_rects_cons]
    · have hdiffer : ¬ (b.bottom = next.top ∧ b.items = next.items) := hjoin
      rw [if_neg hdiffer, if_neg hjoin, ← heq', ← flatMap_rects_cons,
        ih _ hrest (Nat.lt_of_succ_lt_succ hn), List.flatMap_cons, rects_eq, List.append_assoc]

/-- The rectangles stand in the order of their upper ends. -/
theorem rects_ordered (h : Banded bs) :
    (bs.flatMap Band.rects).Pairwise fun r q => r.top ≤ q.top := by
  refine List.pairwise_flatMap.mpr ⟨fun b _ => ?_, h.ordered.imp_of_mem ?_⟩
  · rw [rects_eq]
    exact List.pairwise_map.mpr (List.pairwise_of_forall fun _ _ => Nat.le_refl b.top)
  · intro a b ha _ hab r hr q hq
    obtain ⟨i, -, rfl⟩ := List.mem_map.mp hr
    obtain ⟨j, -, rfl⟩ := List.mem_map.mp hq
    exact (h.proper a ha).high.le.trans hab

/-- A rectangle that starts below shares nothing. -/
theorem commonRect_below {src : RECTANGLE_16} (h : rect.bottom ≤ src.top) :
    commonRect rect src = none := by
  have hrows : ¬ max src.top rect.top < min src.bottom rect.bottom := by omega
  simp [commonRect, rectangles_intersection, hrows]

/-- Going on behind the rectangles that are looked at would find nothing. -/
theorem commonRects_all {rects : List RECTANGLE_16} (h : rects.Pairwise fun r q => r.top ≤ q.top) :
    commonRects rect rects = rects.filterMap (commonRect rect) := by
  unfold commonRects
  induction rects with
  | nil => rfl
  | cons r rects ih =>
    obtain ⟨hfirst, hrest⟩ := List.pairwise_cons.mp h
    by_cases hstop : rect.bottom > r.top
    · rw [List.takeWhile_cons_of_pos (by simpa using hstop), List.filterMap_cons,
        List.filterMap_cons, ih hrest]
    · have hnone : ∀ q ∈ r :: rects, commonRect rect q = none :=
        List.forall_mem_cons.mpr ⟨commonRect_below (not_lt.mp hstop),
          fun q hq => commonRect_below ((not_lt.mp hstop).trans (hfirst q hq))⟩
      rw [List.takeWhile_cons_of_neg (by simpa using hstop), List.filterMap_nil,
        List.filterMap_eq_nil_iff.mpr hnone]

theorem commonRect_item {top bottom : Nat} (i : Nat × Nat)
    (h : max top rect.top < min bottom rect.bottom) :
    commonRect rect (itemRect top bottom i) = (clipItem rect.left rect.right i).map
      (itemRect (max top rect.top) (min bottom rect.bottom)) := by
  unfold commonRect rectangles_intersection clipItem itemRect
  by_cases hwide : max i.1 rect.left < min i.2 rect.right
  · rw [if_pos hwide]
    simp [h, hwide]
  · rw [if_neg hwide]
    simp [hwide]

/-- **The loop of the intersection** does on rectangles what clipping does on bands. -/
theorem commonRects_eq (rect : RECTANGLE_16) (h : Banded bs) :
    commonRects rect (bs.flatMap Band.rects) = (clipAll rect bs).flatMap Band.rects := by
  rw [commonRects_all (rects_ordered h), clipAll, List.filterMap_flatMap, List.flatMap_assoc]
  refine List.flatMap_congr fun b _ => ?_
  rw [rects_eq, List.filterMap_map]
  unfold Band.clip
  by_cases hrows : max b.top rect.top < min b.bottom rect.bottom
  · have hitems : b.items.filterMap (commonRect rect ∘ itemRect b.top b.bottom) =
        (clip rect.left rect.right b.items).map
          (itemRect (max b.top rect.top) (min b.bottom rect.bottom)) := by
      rw [clip, List.map_filterMap]
      exact List.filterMap_congr fun i _ => commonRect_item i hrows
    rw [hitems]
    by_cases hnil : clip rect.left rect.right b.items = []
    · rw [if_neg fun hc => hc.2 hnil, hnil]
      rfl
    · rw [if_pos ⟨hrows, hnil⟩, List.flatMap_singleton, rects_eq]
  · rw [if_neg fun hc => hrows hc.1]
    refine List.filterMap_eq_nil_iff.mpr fun i _ => ?_
    have hrows' : ¬ max (itemRect b.top b.bottom i).top rect.top <
        min (itemRect b.top b.bottom i).bottom rect.bottom := hrows
    simp [commonRect, rectangles_intersection, hrows']

end Loops

end Region

end TiraRdp
