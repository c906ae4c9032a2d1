import TiraRdp.Rdp.Codec.Region

/-!
# Regions are sets of pixels

What the calls of `region.c` make of regions, against the operations on sets that they stand for.

* `Represents`: a region holds a set, in bands that are in order, none of which could be put
  together with the next; the extents are the smallest rectangle around it.
* `Observed`: what its functions tell about it.
* `Call`, `runCalls`, `runShapes`: calls on any number of regions, and what they stand for.

A rectangle that is united has a width and a height. Two rectangles of a band may touch, against the
comment of `region.c:58-61`: the union does not merge a rectangle with an item that starts where it
ends.

Result: whatever is called in whatever order on whatever regions, no call writes outside of its
memory or loops, a call answers `FALSE` only where there is no memory, and each region is the set
that the calls stand for (`calls_represent`).
-/

namespace TiraRdp.Region

open Lib Bands

/-! ## What a region holds -/

structure Represents (region : REGION16) (s : Set (Nat × Nat)) : Prop where
  bands : ∃ bs, region.data.rects = bs.flatMap Band.rects ∧ Banded bs ∧ points bs = s ∧
    bs.IsChain fun a b => ¬ a.Joins b
  extents : s.Nonempty → Box region.extents s
  size : (region.data.size = 0 ∧ region.data.rects = []) ∨
    region.data.size = allocSize (region16_n_rects region)

/-- What comes of a call that is to leave a set in `dst`. -/
def Answers (memory : Bool) (s : Set (Nat × Nat)) (answer : Except Halt (Option REGION16)) : Prop :=
  ∃ dst, answer = .ok dst ∧ (memory = true → dst ≠ none) ∧
    ∀ region, dst = some region → Represents region s

section Rectangles

variable {r q : RECTANGLE_16} {p : Nat × Nat}

theorem proper_of_mem (h : p ∈ r.points) : r.Proper := by
  obtain ⟨hleft, hright, htop, hbottom⟩ := mem_rect.mp h
  exact ⟨hleft.trans_lt hright, htop.trans_lt hbottom⟩

theorem Proper.nonempty (h : r.Proper) : r.points.Nonempty :=
  ⟨(r.left, r.top), le_rfl, h.wide, le_rfl, h.high⟩

theorem mem_intersection :
    p ∈ (rectangles_intersection r q).2.points ↔ p ∈ r.points ∧ p ∈ q.points := by
  simp only [rectangles_intersection, mem_rect, max_le_iff, lt_min_iff]
  tauto

theorem intersection_proper :
    (rectangles_intersection r q).1 = true ↔ (rectangles_intersection r q).2.Proper := by
  unfold rectangles_intersection
  rw [Bool.and_eq_true, decide_eq_true_iff, decide_eq_true_iff]
  exact ⟨fun h => ⟨h.1, h.2⟩, fun h => ⟨h.wide, h.high⟩⟩

/-- Rectangles intersect when they have a pixel in common. -/
theorem rectangles_intersects_iff :
    rectangles_intersects r q = true ↔ (r.points ∩ q.points).Nonempty := by
  rw [rectangles_intersects, intersection_proper]
  constructor
  · intro h
    obtain ⟨p, hp⟩ := Proper.nonempty h
    exact ⟨p, mem_intersection.mp hp⟩
  · rintro ⟨p, hp⟩
    exact proper_of_mem (mem_intersection.mpr hp)

theorem not_empty_of_proper (h : r.Proper) : rectangle_is_empty r = false := by
  have hwide := h.wide.ne
  have hhigh := h.high.ne
  simp [rectangle_is_empty, hwide, hhigh]

theorem growExtents_around (h : r.Proper) : growExtents r q = q.around r := by
  unfold growExtents
  rw [not_empty_of_proper h]
  rfl

theorem around_proper (hr : r.Proper) : (r.around q).Proper where
  wide := (min_le_left _ _).trans_lt (hr.wide.trans_le (le_max_left _ _))
  high := (min_le_left _ _).trans_lt (hr.high.trans_le (le_max_left _ _))

@[simp] theorem mem_area_nil : p ∉ area ([] : List RECTANGLE_16) :=
  fun ⟨_, hr, _⟩ => absurd hr List.not_mem_nil

@[simp] theorem mem_area_cons {rects : List RECTANGLE_16} :
    p ∈ area (r :: rects) ↔ p ∈ r.points ∨ p ∈ area rects := by
  simp [area]

/-- The extents grow to the smallest rectangle around what there is. -/
theorem foldl_growExtents {rects : List RECTANGLE_16} {s : Set (Nat × Nat)} (hr : r.Proper)
    (hbox : Box r s) (h : ∀ q ∈ rects, q.Proper) :
    Box (rects.foldl growExtents r) (s ∪ area rects) := by
  induction rects generalizing r s with
  | nil =>
    have hnil : s ∪ area ([] : List RECTANGLE_16) = s := by
      ext p
      simp
    rw [hnil]
    exact hbox
  | cons q rects ih =>
    have hq := h q List.mem_cons_self
    have hmore := ih (s := q.points ∪ s) (around_proper hq) (hq.box.union hbox)
      fun t ht => h t (List.mem_cons_of_mem q ht)
    have hset : s ∪ area (q :: rects) = q.points ∪ s ∪ area rects := by
      ext p
      simp only [Set.mem_union, mem_area_cons]
      tauto
    rw [List.foldl_cons, growExtents_around hr, hset]
    exact hmore

theorem extents_box {rects : List RECTANGLE_16} (hne : rects ≠ []) (h : ∀ q ∈ rects, q.Proper) :
    Box (rects.foldl growExtents ⟨0, 0, 0, 0⟩) (area rects) := by
  obtain ⟨q, rects, rfl⟩ := List.exists_cons_of_ne_nil hne
  have hq := h q List.mem_cons_self
  have hbox := foldl_growExtents hq hq.box fun t ht => h t (List.mem_cons_of_mem q ht)
  have hset : q.points ∪ area rects = area (q :: rects) := by
    ext p
    simp
  rw [hset] at hbox
  exact hbox

end Rectangles

section Sets

variable {region src : REGION16} {s : Set (Nat × Nat)} {b : Band Nat} {bs : List (Band Nat)}
  {rect : RECTANGLE_16} {memory : Bool}

theorem rects_proper (h : Banded bs) {r : RECTANGLE_16} (hr : r ∈ bs.flatMap Band.rects) :
    r.Proper := by
  obtain ⟨b, hb, hrb⟩ := List.mem_flatMap.mp hr
  obtain ⟨i, hi, rfl⟩ := List.mem_map.mp hrb
  have hproper := h.proper b hb
  exact ⟨hproper.apart.nonempty i hi, hproper.high⟩

/-- There is a rectangle for each band. -/
theorem length_le_rects (h : Banded bs) : bs.length ≤ (bs.flatMap Band.rects).length := by
  induction bs with
  | nil => exact Nat.le_refl 0
  | cons b bs ih =>
    obtain ⟨hb, -, hrest⟩ := banded_cons.mp h
    have hpos := List.length_pos_of_ne_nil hb.nonempty
    have hmore := ih hrest
    rw [List.flatMap_cons, List.length_append, Band.rects_length, List.length_cons]
    omega

theorem points_nonempty (h : Banded (b :: bs)) : (points (b :: bs)).Nonempty := by
  have hb := h.proper b List.mem_cons_self
  obtain ⟨i, hi⟩ := List.exists_mem_of_ne_nil _ hb.nonempty
  have hcovers : Covers b.items i.1 := ⟨i, hi, le_rfl, hb.apart.nonempty i hi⟩
  exact ⟨(i.1, b.top), b, List.mem_cons_self, hcovers, le_rfl, hb.high⟩

/-- No rectangles, no points. -/
theorem rects_nil_iff (h : Banded bs) : bs.flatMap Band.rects = [] ↔ points bs = ∅ := by
  cases bs with
  | nil =>
    refine ⟨fun _ => ?_, fun _ => rfl⟩
    ext p
    simp
  | cons b bs =>
    have hlength := length_le_rects h
    constructor
    · intro hnil
      rw [hnil] at hlength
      exact absurd hlength (Nat.not_succ_le_zero _)
    · exact fun hempty => absurd hempty (points_nonempty h).ne_empty

theorem represents_init : Represents region16_init ∅ where
  bands := ⟨[], rfl, .nil, by ext p; simp, .nil⟩
  extents := fun ⟨_, hp⟩ => absurd hp (Set.notMem_empty _)
  size := Or.inl ⟨rfl, rfl⟩

theorem Represents.empty_iff (h : Represents region s) : region16_n_rects region = 0 ↔ s = ∅ := by
  obtain ⟨bs, hrects, hbanded, rfl, -⟩ := h.bands
  rw [region16_n_rects, List.length_eq_zero_iff, hrects]
  exact rects_nil_iff hbanded

/-! ## The calls -/

theorem answers_some (h : Represents region s) : Answers memory s (.ok (some region)) :=
  ⟨_, rfl, fun _ => Option.some_ne_none _, fun _ hr => Option.some.inj hr ▸ h⟩

theorem answers_none : Answers false s (.ok none) :=
  ⟨_, rfl, fun hmem => absurd hmem Bool.false_ne_true,
    fun _ hr => absurd hr.symm (Option.some_ne_none _)⟩

/-- **Simplifying** leaves the set, and bands that cannot be put together. -/
theorem simplify_answers (bs : List (Band Nat))
    (hrects : region.data.rects = bs.flatMap Band.rects) (h : Banded bs)
    (hpoints : points bs = s) (hextents : s.Nonempty → Box region.extents s)
    (hsize : region.data.size = allocSize (region16_n_rects region)) :
    Answers memory s (region16_simplify_bands memory region) := by
  have hlength := length_le_rects h
  have hcount : region16_n_rects region = (bs.flatMap Band.rects).length := by
    rw [region16_n_rects, hrects]
  unfold region16_simplify_bands
  by_cases hfew : region16_n_rects region < 2
  · rw [if_pos hfew]
    refine answers_some ⟨⟨bs, hrects, h, hpoints, ?_⟩, hextents, Or.inr hsize⟩
    match bs, hlength with
    | [], _ => exact .nil
    | [b], _ => exact .singleton b
    | _ :: _ :: _, hlength => exact absurd hlength (by simp only [List.length_cons] at *; omega)
  · rw [if_neg hfew]
    cases bs with
    | nil => exact absurd hcount (by simp only [List.flatMap_nil, List.length_nil]; omega)
    | cons b bs =>
      have hloop := simplifyLoop_eq [] h (n := region16_n_rects region)
        (by rw [List.length_cons] at hlength; omega)
      have hrepresents (size : Nat)
          (hsize : size = allocSize ((coalesceFrom b bs).flatMap Band.rects).length) :
          Represents { region with data := ⟨size, (coalesceFrom b bs).flatMap Band.rects⟩ } s :=
        ⟨⟨coalesceFrom b bs, rfl, h.coalesce, (points_coalesceFrom h).trans hpoints,
          coalesced_coalesce h⟩, hextents, Or.inr hsize⟩
      rw [hrects, hloop, List.nil_append]
      simp only [bind, Except.bind]
      by_cases hsame : ((coalesceFrom b bs).flatMap Band.rects).length = region16_n_rects region
      · rw [if_neg (not_not.mpr hsame)]
        exact answers_some (hrepresents _ (hsame ▸ hsize))
      · rw [if_pos hsame]
        cases memory with
        | false => exact answers_none
        | true => exact answers_some (hrepresents _ rfl)

/-- A rectangle by itself. -/
theorem represents_rect (h : rect.Proper) :
    Represents ⟨rect, ⟨allocSize 1, [rect]⟩⟩ rect.points where
  bands := by
    refine ⟨[⟨rect.top, rect.bottom, [(rect.left, rect.right)]⟩], rfl,
      banded_cons.mpr ⟨proper_piece h h.high, fun _ hc => absurd hc List.not_mem_nil, .nil⟩, ?_,
      .singleton _⟩
    ext p
    simp only [mem_points_cons, mem_points_nil, mem_band, mem_rect, covers_cons, covers_nil]
    tauto
  extents := fun _ => h.box
  size := Or.inr rfl

/-- **The union with a rectangle.** -/
theorem union_answers (h : Represents src s) (hr : rect.Proper) :
    Answers memory (s ∪ rect.points) (region16_union_rect memory src rect) := by
  obtain ⟨bs, hrects, hbanded, hpoints, -⟩ := h.bands
  unfold region16_union_rect
  cases memory with
  | false => exact answers_none
  | true =>
    rw [if_neg (by simp)]
    by_cases hzero : region16_n_rects src = 0
    · rw [if_pos hzero, h.empty_iff.mp hzero, Set.empty_union]
      exact answers_some (represents_rect hr)
    · rw [if_neg hzero]
      cases bs with
      | nil => exact absurd (by rw [region16_n_rects, hrects]; rfl) hzero
      | cons b bs =>
        have hne : s.Nonempty := hpoints ▸ points_nonempty hbanded
        have hbox := h.extents hne
        rw [← hpoints] at hbox
        have hcount : region16_n_rects src = ((b :: bs).flatMap Band.rects).length := by
          rw [region16_n_rects, hrects]
        have hloop := uniteLoop_eq rect (n := region16_n_rects src) hbanded
          (hcount ▸ length_le_rects hbanded)
        have hroom := uniteRect_length_le rect src.extents hbanded.proper
        rw [hrects, hloop]
        simp only [bind, Except.bind, ← uniteRect_rects]
        rw [if_pos (by rw [hcount]; omega)]
        refine simplify_answers (uniteRect rect src.extents (b :: bs)) rfl
          (hbanded.uniteRect hr hbox) ?_ (fun _ => ?_) rfl
        · rw [points_uniteRect hr hbanded hbox, hpoints]
        · have haround := hr.box.union hbox
          rw [hpoints, Set.union_comm] at haround
          exact haround

/-- `test_r1_r3` of `TestFreeRDPRegion.c`. -/
example : (region16_union_rect true ⟨⟨0, 101, 200, 201⟩, ⟨allocSize 1, [⟨0, 101, 200, 201⟩]⟩⟩
      ⟨150, 151, 250, 251⟩).map (Option.map fun region => region.data.rects) =
    .ok (some [⟨0, 101, 200, 151⟩, ⟨0, 151, 250, 201⟩, ⟨150, 201, 250, 251⟩]) := by
  rfl

/-- One rectangle is its own extents. -/
theorem Represents.single (h : Represents src s) (hone : region16_n_rects src = 1) :
    src.extents.points = s := by
  obtain ⟨bs, hrects, hbanded, hpoints, -⟩ := h.bands
  obtain ⟨r, hr⟩ := List.length_eq_one_iff.mp hone
  have harea : points bs = r.points := by
    rw [← area_rects, ← hrects, hr]
    ext p
    simp
  have hproper : r.Proper := by
    refine rects_proper hbanded ?_
    rw [← hrects, hr]
    exact List.mem_singleton_self r
  have hne : s.Nonempty := by
    rw [← hpoints, harea]
    exact Proper.nonempty hproper
  have hbox := h.extents hne
  rw [← hpoints, harea] at hbox
  rw [hbox.eq hproper.box, ← hpoints, harea]

/-- **The intersection with a rectangle.** -/
theorem intersect_answers (h : Represents src s) :
    Answers memory (s ∩ rect.points) (region16_intersect_rect memory src rect) := by
  obtain ⟨bs, hrects, hbanded, hpoints, -⟩ := h.bands
  unfold region16_intersect_rect
  by_cases hzero : region16_n_rects src = 0
  · rw [if_pos hzero, h.empty_iff.mp hzero, Set.empty_inter]
    exact answers_some represents_init
  · rw [if_neg hzero]
    by_cases hone : region16_n_rects src = 1
    · rw [if_pos hone]
      have hcommon : (rectangles_intersection src.extents rect).2.points = s ∩ rect.points := by
        ext p
        rw [mem_intersection, h.single hone, Set.mem_inter_iff]
      by_cases hshare : (rectangles_intersection src.extents rect).1 = true
      · have hunion : Answers memory _ _ :=
          union_answers represents_init (intersection_proper.mp hshare)
        rw [Set.empty_union, hcommon] at hunion
        simp only [hshare, if_true]
        exact hunion
      · have hempty : s ∩ rect.points = ∅ := by
          rw [← hcommon, ← Set.not_nonempty_iff_eq_empty]
          rintro ⟨p, hp⟩
          exact hshare (intersection_proper.mpr (proper_of_mem hp))
        simp only [hshare, hempty]
        exact answers_some represents_init
    · rw [if_neg hone]
      cases memory with
      | false => exact answers_none
      | true =>
        have hclip := commonRects_eq rect hbanded
        have hroom : (commonRects rect src.data.rects).length ≤ region16_n_rects src :=
          (List.length_filterMap_le _ _).trans (List.takeWhile_sublist _).length_le
        rw [if_neg (by simp)]
        simp only
        rw [if_pos hroom, hrects, hclip]
        refine simplify_answers (clipAll rect bs) rfl hbanded.clipAll ?_ (fun hne => ?_) rfl
        · rw [points_clipAll, hpoints]
        · have hsome : (clipAll rect bs).flatMap Band.rects ≠ [] := by
            rw [Ne, rects_nil_iff hbanded.clipAll, points_clipAll, hpoints]
            exact hne.ne_empty
          have hbox := extents_box hsome fun q hq => rects_proper hbanded.clipAll hq
          rw [area_rects, points_clipAll, hpoints] at hbox
          exact hbox

/-- A copy. -/
theorem copy_answers (h : Represents src s) : Answers memory s (region16_copy memory src) := by
  unfold region16_copy
  by_cases hsize : src.data.size = 0
  · rw [if_pos hsize]
    have hrects : src.data.rects = [] := by
      rcases h.size with ⟨-, hnil⟩ | hsome
      · exact hnil
      · rw [hsize, allocSize] at hsome
        omega
    refine answers_some ⟨?_, h.extents, Or.inl ⟨rfl, rfl⟩⟩
    obtain ⟨bs, hbs, hrest⟩ := h.bands
    exact ⟨bs, hrects.symm.trans hbs, hrest⟩
  · rw [if_neg hsize]
    cases memory with
    | false => exact answers_none
    | true =>
      have halloc : src.data.size = allocSize (region16_n_rects src) := by
        rcases h.size with ⟨hzero, -⟩ | hsome
        · exact absurd hzero hsize
        · exact hsome
      rw [if_neg (by simp), if_pos halloc]
      exact answers_some h

/-- Asking whether a rectangle intersects. -/
theorem intersects_iff (h : Represents src s) :
    region16_intersects_rect src rect = true ↔ (s ∩ rect.points).Nonempty := by
  obtain ⟨bs, hrects, hbanded, hpoints, -⟩ := h.bands
  unfold region16_intersects_rect
  by_cases hzero : region16_n_rects src = 0
  · rw [if_pos hzero, h.empty_iff.mp hzero, Set.empty_inter]
    simp
  · rw [if_neg hzero]
    by_cases hone : region16_n_rects src = 1
    · rw [if_pos hone, rectangles_intersects_iff, h.single hone]
    · rw [if_neg hone]
      have hne : s.Nonempty := by
        rw [Set.nonempty_iff_ne_empty]
        exact fun hempty => hzero (h.empty_iff.mpr hempty)
      by_cases houtside : rectangles_intersects src.extents rect = true
      · rw [if_neg (not_not.mpr houtside)]
        have hany : (src.data.rects.takeWhile fun r => rect.bottom > r.top).any
            (fun r => rectangles_intersects r rect) = true ↔
            commonRects rect src.data.rects ≠ [] := by
          rw [commonRects, Ne, List.filterMap_eq_nil_iff, List.any_eq_true, not_forall]
          refine exists_congr fun r => ?_
          rw [Classical.not_imp, commonRect, rectangles_intersects]
          refine and_congr_right' ?_
          cases hshare : (rectangles_intersection r rect).1 <;> simp [hshare]
        rw [hany, hrects, commonRects_eq rect hbanded, Ne, rects_nil_iff hbanded.clipAll,
          points_clipAll, hpoints]
        exact Set.nonempty_iff_ne_empty.symm
      · rw [if_pos houtside]
        refine ⟨fun hfalse => absurd hfalse Bool.false_ne_true, ?_⟩
        rintro ⟨p, hp, hrect⟩
        exact absurd (rectangles_intersects_iff.mpr ⟨p, (h.extents hne).subset hp, hrect⟩) houtside

/-- What the functions of a region tell about a set: its pixels in rectangles that do not overlap,
the smallest rectangle around it, whether it is empty, and which rectangles it meets. -/
structure Observed (region : REGION16) (s : Set (Nat × Nat)) : Prop where
  rects : area region.data.rects = s
  disjoint : region.data.rects.Pairwise fun r q => r.points ∩ q.points = ∅
  extents : s.Nonempty → Box region.extents s
  is_empty : region16_is_empty region = true ↔ s = ∅
  intersects : ∀ rect, region16_intersects_rect region rect = true ↔ (s ∩ rect.points).Nonempty

/-- The rectangles of bands do not overlap. -/
theorem rects_disjoint (h : Banded bs) :
    (bs.flatMap Band.rects).Pairwise fun r q => r.points ∩ q.points = ∅ := by
  refine List.pairwise_flatMap.mpr ⟨fun b hb => ?_, h.ordered.imp ?_⟩
  · rw [rects_eq]
    refine List.pairwise_map.mpr ((h.proper b hb).apart.ordered.imp ?_)
    intro i j hij
    refine Set.eq_empty_iff_forall_notMem.mpr fun p ⟨hp, hq⟩ => ?_
    exact absurd ((mem_rect.mp hp).2.1.trans_le hij) (not_lt.mpr (mem_rect.mp hq).1)
  · intro a b hab r hr q hq
    obtain ⟨i, -, rfl⟩ := List.mem_map.mp hr
    obtain ⟨j, -, rfl⟩ := List.mem_map.mp hq
    refine Set.eq_empty_iff_forall_notMem.mpr fun p ⟨hp, hq⟩ => ?_
    exact absurd ((mem_rect.mp hp).2.2.2.trans_le hab) (not_lt.mpr (mem_rect.mp hq).2.2.1)

theorem Represents.observed (h : Represents region s) : Observed region s := by
  obtain ⟨bs, hrects, hbanded, hpoints, -⟩ := h.bands
  refine ⟨?_, ?_, h.extents, ?_, fun rect => intersects_iff h⟩
  · rw [hrects, area_rects, hpoints]
  · rw [hrects]
    exact rects_disjoint hbanded
  · rw [region16_is_empty, decide_eq_true_iff]
    exact h.empty_iff

end Sets

/-! ## Any calls -/

section Calls

variable {κ : Type} [DecidableEq κ]

/-- A call on regions that are told apart by `κ`. -/
inductive Call (κ : Type) where
  | region16_clear (dst : κ)
  | region16_copy (dst src : κ)
  | region16_union_rect (dst src : κ) (rect : RECTANGLE_16)
  | region16_intersect_rect (dst src : κ) (rect : RECTANGLE_16)

namespace Call

def dst : Call κ → κ
  | .region16_clear dst | .region16_copy dst _ | .region16_union_rect dst _ _
  | .region16_intersect_rect dst _ _ => dst

/-- What the call makes of `dst`. -/
def answer (memory : Bool) (regions : κ → REGION16) : Call κ → Except Halt (Option REGION16)
  | .region16_clear _ => .ok (some region16_init)
  | .region16_copy dst src =>
    if dst = src then .ok (some (regions src)) else Region.region16_copy memory (regions src)
  | .region16_union_rect _ src rect => Region.region16_union_rect memory (regions src) rect
  | .region16_intersect_rect _ src rect => Region.region16_intersect_rect memory (regions src) rect

/-- What it stands for. -/
def shape (shapes : κ → Set (Nat × Nat)) : Call κ → Set (Nat × Nat)
  | .region16_clear _ => ∅
  | .region16_copy _ src => shapes src
  | .region16_union_rect _ src rect => shapes src ∪ rect.points
  | .region16_intersect_rect _ src rect => shapes src ∩ rect.points

/-- A rectangle that is united has a width and a height. -/
def Proper : Call κ → Prop
  | .region16_union_rect _ _ rect => rect.Proper
  | _ => True

end Call

/-- Calls one after the other, each with the memory it finds; `none` where one answers `FALSE`. -/
def runCalls : List (Bool × Call κ) → (κ → REGION16) → Except Halt (Option (κ → REGION16))
  | [], regions => .ok (some regions)
  | (memory, call) :: more, regions => do
    match ← call.answer memory regions with
    | none => .ok none
    | some region => runCalls more (Function.update regions call.dst region)

/-- What they stand for. -/
def runShapes : List (Bool × Call κ) → (κ → Set (Nat × Nat)) → κ → Set (Nat × Nat)
  | [], shapes => shapes
  | (_, call) :: more, shapes => runShapes more (Function.update shapes call.dst (call.shape shapes))

/-- One call. -/
theorem call_answers (memory : Bool) {regions : κ → REGION16} {shapes : κ → Set (Nat × Nat)}
    (h : ∀ k, Represents (regions k) (shapes k)) {call : Call κ} (hcall : call.Proper) :
    Answers memory (call.shape shapes) (call.answer memory regions) := by
  cases call with
  | region16_clear dst => exact answers_some represents_init
  | region16_copy dst src =>
    by_cases hsame : dst = src
    · rw [Call.answer, if_pos hsame]
      exact answers_some (h src)
    · rw [Call.answer, if_neg hsame]
      exact copy_answers (h src)
  | region16_union_rect dst src rect => exact union_answers (h src) hcall
  | region16_intersect_rect dst src rect => exact intersect_answers (h src)

theorem runCalls_represents {calls : List (Bool × Call κ)} {regions : κ → REGION16}
    {shapes : κ → Set (Nat × Nat)} (h : ∀ k, Represents (regions k) (shapes k))
    (hcalls : ∀ c ∈ calls, c.2.Proper) :
    ∃ last, runCalls calls regions = .ok last ∧
      ((∀ c ∈ calls, c.1 = true) → last ≠ none) ∧
      ∀ regions', last = some regions' → ∀ k, Represents (regions' k) (runShapes calls shapes k) := by
  induction calls generalizing regions shapes with
  | nil =>
    exact ⟨_, rfl, fun _ => Option.some_ne_none _, fun _ heq => Option.some.inj heq ▸ h⟩
  | cons c calls ih =>
    obtain ⟨memory, call⟩ := c
    have hrest (c : Bool × Call κ) (hc : c ∈ calls) : c.2.Proper :=
      hcalls c (List.mem_cons_of_mem _ hc)
    obtain ⟨dst, hanswer, hsome, hdst⟩ :=
      call_answers memory h (hcalls (memory, call) List.mem_cons_self)
    rw [runCalls, hanswer, runShapes]
    cases dst with
    | none =>
      refine ⟨none, rfl, fun hmem => ?_, fun _ heq => absurd heq.symm (Option.some_ne_none _)⟩
      exact absurd rfl (hsome (hmem (memory, call) List.mem_cons_self))
    | some region =>
      have hnext (k : κ) : Represents (Function.update regions call.dst region k)
          (Function.update shapes call.dst (call.shape shapes) k) := by
        by_cases hk : k = call.dst
        · subst hk
          rw [Function.update_self, Function.update_self]
          exact hdst region rfl
        · rw [Function.update_of_ne hk, Function.update_of_ne hk]
          exact h k
      obtain ⟨last, hlast, hmemory, hshapes⟩ := ih hnext hrest
      exact ⟨last, hlast, fun hmem => hmemory fun c hc => hmem c (List.mem_cons_of_mem _ hc),
        hshapes⟩

/-- **Regions are sets.** From regions that have just been made on, in any order of calls: none
writes outside of its memory or goes round for ever, none answers `FALSE` while there is memory, and
each region holds, in its bands, the set that the calls stand for, and tells it. -/
theorem calls_represent (calls : List (Bool × Call κ)) (hcalls : ∀ c ∈ calls, c.2.Proper) :
    ∃ last, runCalls calls (fun _ => region16_init) = .ok last ∧
      ((∀ c ∈ calls, c.1 = true) → last ≠ none) ∧
      ∀ regions, last = some regions → ∀ k,
        Represents (regions k) (runShapes calls (fun _ => ∅) k) ∧
          Observed (regions k) (runShapes calls (fun _ => ∅) k) := by
  obtain ⟨last, hlast, hmemory, hshapes⟩ :=
    runCalls_represents (fun _ : κ => represents_init) hcalls
  refine ⟨last, hlast, hmemory, fun regions heq k => ?_⟩
  have hk := hshapes regions heq k
  exact ⟨hk, hk.observed⟩

/-- Two rectangles that overlap, united in one region, and cut out of it into another. -/
def overlapping : List (Bool × Call Bool) :=
  [(true, .region16_union_rect true true ⟨0, 101, 200, 201⟩),
    (true, .region16_union_rect true true ⟨150, 151, 250, 251⟩),
    (true, .region16_intersect_rect false true ⟨100, 0, 175, 300⟩)]

theorem calls_represent_overlapping :
    ∃ regions : Bool → REGION16, runCalls overlapping (fun _ => region16_init) = .ok (some regions) ∧
      Observed (regions true) (runShapes overlapping (fun _ => ∅) true) := by
  have hcalls : ∀ c ∈ overlapping, c.2.Proper := by
    intro c hc
    simp only [overlapping, List.mem_cons, List.not_mem_nil, or_false] at hc
    rcases hc with rfl | rfl | rfl
    · exact ⟨by decide, by decide⟩
    · exact ⟨by decide, by decide⟩
    · trivial
  obtain ⟨last, hlast, hmemory, hshapes⟩ := calls_represent overlapping hcalls
  have hmem : ∀ c ∈ overlapping, c.1 = true := by decide
  obtain ⟨regions, rfl⟩ := Option.ne_none_iff_exists'.mp (hmemory hmem)
  exact ⟨regions, hlast, (hshapes regions rfl true).2⟩

end Calls

end TiraRdp.Region
