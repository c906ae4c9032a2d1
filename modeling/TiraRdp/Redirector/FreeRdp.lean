import Mathlib.Logic.Function.Basic
import TiraRdp.Rtsp.Decimal

/-!
# The command line of the RDP client

Model of `InitalArguments` (`redirector-client/FreeRdp.cpp:21-50`), which makes `argv` of a command
line, and of `RdpSetting::ToString` (`RdpSetting.cpp:11-26`), which makes the command line.

* A C string ends at its first NUL (`cString`). `strtok_s` with the one separator " " is a function
  of what is left of the string.
* `argv` is `argv i = some s` where a copy of `s` was stored at index `i`, inside the block or not;
  `slots` is how many elements the block that `malloc` gave has. `sizeof(char*)` is 4, as in the
  Win32 build of the project files, and the product is a 32-bit `size_t`.
* `none` is undefined: an `int` counts past `2 ^ 31 - 1`. The program's own use of `argv` is not
  modelled.

Results: the entries are the empty program name and the words of the command line
(`InitalArguments_spec`). The block has `1 +` the number of spaces elements and `argc` is one more,
so it counts the entries exactly when no space is next to another or at an end, and then the last of
them is stored behind the block (`InitalArguments_never`). The settings' command line splits into
its options (`splitOn_ToString`).
-/

namespace TiraRdp

open Lib

/-- The separator. -/
def space : UInt8 := 32

/-- The string that a pointer to its first character names. -/
def cString (memory : Bytes) : Bytes := memory.takeWhile (· ≠ 0)

/-- `strtok_s(…, " ", …)`: the next token, and what is left behind the separator that ends it. -/
def strtok_s (rest : Bytes) : Option (Bytes × Bytes) :=
  match rest.dropWhile (· == space) with
  | [] => none
  | c :: cs => some ((c :: cs).takeWhile (· != space), ((c :: cs).dropWhile (· != space)).drop 1)

/-- The part of an `rdpContext` that `InitalArguments` sets. -/
structure RdpContext where
  argc : Int
  argv : Nat → Option Bytes
  slots : Nat

namespace FreeRdp

/-- The first loop. -/
def countSpaces (lpCmdLine : Bytes) : Nat :=
  lpCmdLine.foldl (fun count c => if c = space then count + 1 else count) 1

/-- The second loop, with the result of the last `strtok_s`; `none` when it has not ended after
`fuel` tokens. -/
def storeTokens :
    Nat → Option (Bytes × Bytes) → Nat → (Nat → Option Bytes) → Option (Nat → Option Bytes)
  | _, none, _, argv => some argv
  | 0, some _, _, _ => none
  | fuel + 1, some (p, rest), count, argv =>
    storeTokens fuel (strtok_s rest) (count + 1) (Function.update argv count (some p))

/-- `InitalArguments`, with what it returns; `malloc` says whether there is memory. -/
def InitalArguments (malloc : Bool) (memory : Bytes) : Option (Int × RdpContext) :=
  let lpCmdLine := cString memory
  let count := countSpaces lpCmdLine
  if lpCmdLine.length ≥ 2 ^ 31 ∨ 1 + count ≥ 2 ^ 31 then none
  else
    let argc : Int := 1 + count
    if !malloc then some (1, ⟨argc, fun _ => none, 0⟩)
    else
      (storeTokens lpCmdLine.length (strtok_s lpCmdLine) 1
        (Function.update (fun _ => none) 0 (some []))).map fun argv => (0, ⟨argc, argv, u32 (4 * count) / 4⟩)

end FreeRdp

/-- `Resolution`. -/
structure Resolution where
  w : Nat
  h : Nat
  deriving Repr, DecidableEq

structure RdpSetting where
  _server : Bytes
  _domain : Bytes
  _user : Bytes
  _password : Bytes
  _resolution : Resolution
  deriving Repr, DecidableEq

namespace RdpSetting

def ToString (s : RdpSetting) : Bytes :=
  ascii "/audio-mode:0" ++ ascii " /u:" ++ s._user ++ ascii " /p:" ++ s._password ++ ascii " /v:" ++
    s._server ++ ascii " /d:" ++ s._domain ++ ascii " /w:" ++ decimal s._resolution.w ++ ascii " /h:" ++
    decimal s._resolution.h ++ ascii " /gfx" ++ ascii " /multitouch" ++ ascii " /fast-path:0" ++
    ascii " /vc:rdpsnd"

/-- The options of `ToString`, in order. -/
def options (s : RdpSetting) : List Bytes :=
  [ascii "/audio-mode:0", ascii "/u:" ++ s._user, ascii "/p:" ++ s._password, ascii "/v:" ++ s._server,
    ascii "/d:" ++ s._domain, ascii "/w:" ++ decimal s._resolution.w,
    ascii "/h:" ++ decimal s._resolution.h, ascii "/gfx", ascii "/multitouch", ascii "/fast-path:0",
    ascii "/vc:rdpsnd"]

end RdpSetting

/-! ## Words -/

/-- The words of a string: what stands between spaces. -/
def words (s : Bytes) : List Bytes := (s.splitOn space).filter fun w => !w.isEmpty

theorem words_cons_space (s : Bytes) : words (space :: s) = words s := by
  rw [words, List.splitOn_cons_eq_if_modifyHead, if_pos (beq_self_eq_true space)]
  rfl

/-- A word in front of the end of the string or of a space. -/
theorem words_append {w : Bytes} (hne : w ≠ []) (hw : space ∉ w) (s : Bytes) :
    words w = [w] ∧ words (w ++ space :: s) = w :: words s := by
  have hkeep : w.isEmpty = false := List.isEmpty_eq_false_iff.mpr hne
  constructor
  · rw [words, List.splitOn_eq_singleton hw, List.filter_singleton, hkeep]
    rfl
  · rw [words, List.splitOn_append_cons_self_of_not_mem hw,
      List.filter_cons_of_pos (by rw [hkeep]; rfl), words]

/-- The first word and the rest. -/
theorem words_cons {c : UInt8} (hc : c ≠ space) (s : Bytes) : words (c :: s) =
    (c :: s).takeWhile (· != space) :: words (((c :: s).dropWhile (· != space)).drop 1) := by
  have hne : (c :: s).takeWhile (· != space) ≠ [] := by
    rw [List.takeWhile_cons_of_pos (p := (· != space)) (bne_iff_ne.mpr hc)]
    exact List.cons_ne_nil _ _
  have hw : space ∉ (c :: s).takeWhile (· != space) := fun hmem =>
    absurd (List.mem_takeWhile_imp hmem) (by decide)
  have hsplit := List.takeWhile_append_dropWhile (p := (· != space)) (l := c :: s)
  cases hrest : (c :: s).dropWhile (· != space) with
  | nil =>
    rw [hrest, List.append_nil] at hsplit
    conv_lhs => rw [← hsplit]
    exact (words_append hne hw []).1
  | cons d rest =>
    -- what is left begins with the space that ends the word
    have hd : d = space := by
      have hne' : (c :: s).dropWhile (· != space) ≠ [] := hrest ▸ List.cons_ne_nil d rest
      have hhead := List.head_dropWhile_not (· != space) hne'
      simp only [hrest, List.head_cons] at hhead
      exact bne_eq_false_iff_eq.mp hhead
    subst hd
    rw [hrest] at hsplit
    conv_lhs => rw [← hsplit]
    exact (words_append hne hw rest).2

/-- **`strtok_s`** takes the next word. -/
theorem words_strtok_s (s : Bytes) : words s = match strtok_s s with
    | none => []
    | some (p, rest) => p :: words rest := by
  induction s with
  | nil => rfl
  | cons c s ih =>
    by_cases hc : c = space
    · subst hc
      have hskip : strtok_s (space :: s) = strtok_s s := by
        rw [strtok_s, List.dropWhile_cons_of_pos (p := (· == space)) (beq_self_eq_true space),
          strtok_s]
      rw [words_cons_space, hskip]
      exact ih
    · have hstop : (c :: s).dropWhile (· == space) = c :: s :=
        List.dropWhile_cons_of_neg (by rw [beq_iff_eq]; exact hc)
      rw [strtok_s, hstop]
      exact words_cons hc s

/-- It takes at least a character. -/
theorem strtok_s_length_lt {s p rest : Bytes} (h : strtok_s s = some (p, rest)) :
    rest.length < s.length := by
  unfold strtok_s at h
  split at h
  · exact nomatch h
  · rename_i c cs hskip
    obtain ⟨-, rfl⟩ := Prod.mk.inj (Option.some.inj h)
    have hskipped := (List.dropWhile_sublist (l := s) (· == space)).length_le
    have htaken := (List.dropWhile_sublist (l := c :: cs) (· != space)).length_le
    rw [hskip, List.length_cons] at hskipped
    rw [List.length_cons] at htaken
    rw [List.length_drop]
    omega

/-- A string has one piece more than it has spaces. -/
theorem length_splitOn (s : Bytes) : (s.splitOn space).length = s.count space + 1 := by
  induction s with
  | nil => rfl
  | cons c s ih =>
    rw [List.splitOn_cons_eq_if_modifyHead, List.count_cons]
    split
    · rw [List.length_cons, ih]
    · rw [List.length_modifyHead, ih, Nat.add_zero]

/-- It has as many words as pieces exactly when no piece is empty. -/
theorem length_words_iff (s : Bytes) :
    (words s).length = s.count space + 1 ↔ [] ∉ s.splitOn space := by
  rw [← length_splitOn, words, List.length_filter_eq_length_iff]
  constructor
  · intro h hmem
    exact absurd (h [] hmem) (by decide)
  · intro h w hw
    rw [Bool.not_eq_true', List.isEmpty_eq_false_iff]
    exact fun heq => h (heq ▸ hw)

theorem length_words_le (s : Bytes) : (words s).length ≤ s.count space + 1 := by
  rw [← length_splitOn]
  exact List.length_filter_le _ _

namespace FreeRdp

theorem countSpaces_eq (s : Bytes) : countSpaces s = 1 + s.count space := by
  have hfold (n : Nat) : s.foldl (fun count c => if c = space then count + 1 else count) n =
      n + s.count space := by
    induction s generalizing n with
    | nil => rfl
    | cons c s ih =>
      rw [List.foldl_cons, ih, List.count_cons]
      by_cases hc : c = space
      · rw [if_pos hc, if_pos (beq_iff_eq.mpr hc), Nat.add_assoc, Nat.add_comm 1]
      · rw [if_neg hc, if_neg fun h => hc (beq_iff_eq.mp h), Nat.add_zero]
  exact hfold 1

/-- `argv` with these entries, from index 0 on. -/
def stored (entries : List Bytes) : Nat → Option Bytes := fun i => entries[i]?

theorem update_stored (entries : List Bytes) (p : Bytes) :
    Function.update (stored entries) entries.length (some p) = stored (entries ++ [p]) := by
  funext i
  unfold stored
  by_cases hi : i = entries.length
  · subst hi
    rw [Function.update_self, List.getElem?_concat_length]
  · rw [Function.update_of_ne hi]
    rcases Nat.lt_or_gt_of_ne hi with hlt | hgt
    · rw [List.getElem?_append_left hlt]
    · rw [List.getElem?_eq_none (Nat.le_of_lt hgt), List.getElem?_eq_none]
      rw [List.length_append, List.length_singleton]
      exact hgt

/-- **The second loop** stores the words behind the entries there are. -/
theorem storeTokens_spec {fuel : Nat} :
    ∀ {rest : Bytes} (entries : List Bytes), rest.length ≤ fuel →
    storeTokens fuel (strtok_s rest) entries.length (stored entries) =
      some (stored (entries ++ words rest)) := by
  induction fuel with
  | zero =>
    intro rest entries hfuel
    obtain rfl := List.eq_nil_of_length_eq_zero (Nat.le_zero.mp hfuel)
    have hnone : words [] = [] := rfl
    rw [hnone, List.append_nil]
    rfl
  | succ fuel ih =>
    intro rest entries hfuel
    have hwords := words_strtok_s rest
    cases hnext : strtok_s rest with
    | none =>
      rw [hnext] at hwords
      rw [hwords, List.append_nil]
      rfl
    | some next =>
      obtain ⟨p, behind⟩ := next
      rw [hnext] at hwords
      have hlt := strtok_s_length_lt hnext
      have hlen : entries.length + 1 = (entries ++ [p]).length := by
        rw [List.length_append, List.length_singleton]
      rw [storeTokens, update_stored, hlen, ih (entries ++ [p]) (by omega), hwords,
        List.append_assoc]
      rfl

/-- Every write to `argv` is inside the block. -/
def Inside (context : RdpContext) : Prop := ∀ i, context.argv i ≠ none → i < context.slots

/-- `argc` is the number of entries that were stored. -/
def Counted (context : RdpContext) : Prop :=
  ∀ i : Nat, context.argv i ≠ none ↔ (i : Int) < context.argc

/-- The call has a defined result, with both. -/
def ArgumentsRight (result : Option (Int × RdpContext)) : Prop :=
  ∃ status context, result = some (status, context) ∧ Inside context ∧ Counted context

variable {entries : List Bytes} {argc : Int} {slots : Nat}

theorem stored_ne_none_iff {i : Nat} : stored entries i ≠ none ↔ i < entries.length := by
  rw [stored, ne_eq, List.getElem?_eq_none_iff, Nat.not_le]

theorem stored_injective : Function.Injective stored := by
  intro entries entries' h
  exact List.ext_getElem? (congrFun h)

theorem inside_stored_iff : Inside ⟨argc, stored entries, slots⟩ ↔ entries.length ≤ slots := by
  constructor
  · intro h
    cases hlen : entries.length with
    | zero => exact Nat.zero_le _
    | succ n => exact h n (stored_ne_none_iff.mpr (by omega))
  · intro h i hi
    exact Nat.lt_of_lt_of_le (stored_ne_none_iff.mp hi) h

theorem counted_stored_iff (hargc : 0 ≤ argc) :
    Counted ⟨argc, stored entries, slots⟩ ↔ (entries.length : Int) = argc := by
  constructor
  · intro h
    have hlast := (h entries.length).not.mp (fun hi => Nat.lt_irrefl _ (stored_ne_none_iff.mp hi))
    have hargv := (h argc.toNat).not.mpr (by dsimp only; omega)
    rw [stored_ne_none_iff] at hargv
    dsimp only at hlast
    omega
  · intro h i
    rw [stored_ne_none_iff]
    dsimp only
    omega

/-- No `int` of `InitalArguments` overflows. -/
def Countable (s : Bytes) : Prop := s.length < 2 ^ 31 ∧ s.count space + 2 < 2 ^ 31

/-- **`InitalArguments`** where it has memory: the empty name and the words. -/
theorem InitalArguments_spec {memory : Bytes} (h : Countable (cString memory)) :
    InitalArguments true memory = some (0, ⟨(cString memory).count space + 2,
      stored ([] :: words (cString memory)), u32 (4 * ((cString memory).count space + 1)) / 4⟩) := by
  have hstart : Function.update (fun _ => none : Nat → Option Bytes) 0 (some []) = stored [[]] :=
    update_stored [] []
  have hloop := storeTokens_spec [[]] (Nat.le_refl (cString memory).length)
  have hcount : countSpaces (cString memory) = (cString memory).count space + 1 := by
    rw [countSpaces_eq, Nat.add_comm]
  have hdefined : ¬ ((cString memory).length ≥ 2 ^ 31 ∨
      1 + ((cString memory).count space + 1) ≥ 2 ^ 31) := by
    obtain ⟨hlen, hspaces⟩ := h
    omega
  have hargc : (1 : Int) + ((cString memory).count space + 1 : Nat) =
      (cString memory).count space + 2 := by
    omega
  unfold InitalArguments
  simp only [hcount, if_neg hdefined, Bool.not_true, Bool.false_eq_true, if_false, hstart, hargc]
  rw [List.length_singleton] at hloop
  rw [hloop]
  rfl

/-- The block is no larger than the number of spaces and one. -/
theorem slots_le (n : Nat) : u32 (4 * n) / 4 ≤ n := by
  unfold u32
  omega

/-- Where the writes are inside the block, and where `argc` counts them. -/
theorem InitalArguments_iff {memory : Bytes} (h : Countable (cString memory)) :
    ∃ context, InitalArguments true memory = some (0, context) ∧
      context.argv = stored ([] :: words (cString memory)) ∧
      context.slots ≤ (cString memory).count space + 1 ∧
      (Inside context ↔ (words (cString memory)).length < context.slots) ∧
      (Counted context ↔ [] ∉ (cString memory).splitOn space) := by
  refine ⟨_, InitalArguments_spec h, rfl, slots_le _, inside_stored_iff, ?_⟩
  rw [counted_stored_iff (by omega), ← length_words_iff, List.length_cons]
  omega

/-- Both cannot be. -/
theorem not_argumentsRight (malloc : Bool) (memory : Bytes) :
    ¬ ArgumentsRight (InitalArguments malloc memory) := by
  rintro ⟨status, context, hresult, hinside, hcounted⟩
  by_cases h : Countable (cString memory)
  · cases malloc with
    | true =>
      obtain ⟨context', heq, -, hslots, hinside', hcounted'⟩ := InitalArguments_iff h
      obtain ⟨-, rfl⟩ := Prod.mk.inj (Option.some.inj (heq.symm.trans hresult))
      have hall := (length_words_iff _).mpr (hcounted'.mp hcounted)
      have hroom := hinside'.mp hinside
      omega
    | false =>
      unfold InitalArguments at hresult
      dsimp only at hresult
      rw [Bool.not_false, if_pos rfl] at hresult
      split_ifs at hresult
      obtain ⟨-, rfl⟩ := Prod.mk.inj (Option.some.inj hresult)
      -- nothing was stored, and `argc` is positive
      exact (hcounted 0).mpr (by dsimp only; omega) rfl
  · unfold InitalArguments at hresult
    have hcount := countSpaces_eq (cString memory)
    have hundefined : (cString memory).length ≥ 2 ^ 31 ∨
        1 + countSpaces (cString memory) ≥ 2 ^ 31 := by
      unfold Countable at h
      omega
    simp only [if_pos hundefined] at hresult
    exact nomatch hresult

end FreeRdp

/-! ## The options of the settings -/

namespace RdpSetting

/-- The texts have no space. -/
structure Plain (s : RdpSetting) : Prop where
  server : space ∉ s._server
  domain : space ∉ s._domain
  user : space ∉ s._user
  password : space ∉ s._password

theorem decimal_no_space (n : Int) : space ∉ decimal n := by
  intro hmem
  rcases mem_decimal hmem with hdigit | hminus
  · exact absurd hdigit (by decide)
  · exact absurd hminus (by decide)

theorem ToString_eq (s : RdpSetting) : s.ToString = [space].intercalate s.options := by
  simp only [ToString, options, List.intercalate_cons_cons, List.intercalate_singleton,
    List.append_assoc]
  rfl

variable {s : RdpSetting}

/-- An option has a name, and no space. -/
theorem mem_options (h : s.Plain) {o : Bytes} (ho : o ∈ s.options) : o ≠ [] ∧ space ∉ o := by
  have hnamed (name value : Bytes) (hname : name ≠ [] ∧ space ∉ name) (hvalue : space ∉ value) :
      name ++ value ≠ [] ∧ space ∉ name ++ value := by
    refine ⟨List.append_ne_nil_of_left_ne_nil hname.1 _, ?_⟩
    rw [List.mem_append]
    exact fun hmem => hmem.elim hname.2 hvalue
  simp only [options, List.mem_cons, List.not_mem_nil, or_false] at ho
  rcases ho with rfl | rfl | rfl | rfl | rfl | rfl | rfl | rfl | rfl | rfl | rfl
  · decide
  · exact hnamed _ _ (by decide) h.user
  · exact hnamed _ _ (by decide) h.password
  · exact hnamed _ _ (by decide) h.server
  · exact hnamed _ _ (by decide) h.domain
  · exact hnamed _ _ (by decide) (decimal_no_space _)
  · exact hnamed _ _ (by decide) (decimal_no_space _)
  · decide
  · decide
  · decide
  · decide

/-- **The settings' command line** splits into its options. -/
theorem splitOn_ToString (h : s.Plain) : s.ToString.splitOn space = s.options := by
  rw [ToString_eq]
  exact List.splitOn_intercalate space (fun o ho => (mem_options h ho).2) (List.cons_ne_nil _ _)

theorem words_ToString (h : s.Plain) : words s.ToString = s.options := by
  rw [words, splitOn_ToString h, List.filter_eq_self]
  intro o ho
  rw [List.isEmpty_eq_false_iff.mpr (mem_options h ho).1]
  rfl

/-- The tokens are the options exactly when no NUL ends the command line early. -/
theorem words_cString_ToString_iff (h : s.Plain) :
    words (cString s.ToString) = s.options ↔ 0 ∉ s.ToString := by
  constructor
  · intro hwords hmem
    -- as many pieces as the whole string has, so they are the words, and then it is the whole string
    have hsub : (cString s.ToString).Sublist s.ToString := List.takeWhile_sublist _
    have hcount := hsub.count_le space
    have hlen := length_splitOn s.ToString
    have hle := length_words_le (cString s.ToString)
    rw [splitOn_ToString h, ← hwords] at hlen
    have hall := (length_words_iff (cString s.ToString)).mp (by omega)
    have hpieces : (cString s.ToString).splitOn space = s.ToString.splitOn space := by
      rw [splitOn_ToString h, ← hwords, words, List.filter_eq_self.mpr]
      intro w hw
      rw [List.isEmpty_eq_false_iff.mpr fun heq => hall (heq ▸ hw)]
      rfl
    have hwhole : cString s.ToString = s.ToString := by
      have hjoin := congrArg [space].intercalate hpieces
      rwa [List.intercalate_splitOn, List.intercalate_splitOn] at hjoin
    have hkept := List.takeWhile_eq_self_iff.mp hwhole 0 hmem
    exact absurd rfl (of_decide_eq_true hkept)
  · intro hnul
    rw [cString, List.takeWhile_eq_self_iff.mpr, words_ToString h]
    intro c hc
    exact decide_eq_true fun heq => hnul (heq ▸ hc)

theorem Plain.countable_ToString (h : s.Plain) (hlen : s.ToString.length < 2 ^ 31) :
    FreeRdp.Countable (cString s.ToString) := by
  have hsub : (cString s.ToString).Sublist s.ToString := List.takeWhile_sublist _
  have hle := hsub.length_le
  have hcount := hsub.count_le space
  have hpieces := length_splitOn s.ToString
  have hoptions : s.options.length = 11 := rfl
  rw [splitOn_ToString h] at hpieces
  constructor
  · omega
  · omega

end RdpSetting

namespace FreeRdp

/-- **No command line** has an `argv` inside its block and an `argc` that counts it. Which of the
two fails; and the entries for the settings' command line. -/
theorem InitalArguments_never (malloc : Bool) (memory : Bytes) (s : RdpSetting) :
    ¬ ArgumentsRight (InitalArguments malloc memory) ∧
    (Countable (cString memory) → ∃ context, InitalArguments true memory = some (0, context) ∧
      context.argv = stored ([] :: words (cString memory)) ∧
      context.slots ≤ (cString memory).count space + 1 ∧
      (Inside context ↔ (words (cString memory)).length < context.slots) ∧
      (Counted context ↔ [] ∉ (cString memory).splitOn space)) ∧
    (s.Plain → s.ToString.length < 2 ^ 31 →
      ∃ context, InitalArguments true s.ToString = some (0, context) ∧
        (context.argv = stored ([] :: s.options) ↔ 0 ∉ s.ToString)) := by
  refine ⟨not_argumentsRight malloc memory, InitalArguments_iff, ?_⟩
  intro hplain hlen
  obtain ⟨context, hresult, hargv, -⟩ := InitalArguments_iff (hplain.countable_ToString hlen)
  refine ⟨context, hresult, ?_⟩
  rw [hargv, ← RdpSetting.words_cString_ToString_iff hplain]
  constructor
  · intro h
    exact List.tail_eq_of_cons_eq (stored_injective h)
  · intro h
    rw [h]

/-- The settings of a server. -/
def hostSetting : RdpSetting := ⟨ascii "host", ascii "lab", ascii "me", ascii "pw", ⟨800, 600⟩⟩

theorem InitalArguments_never_host : ¬ ArgumentsRight (InitalArguments true hostSetting.ToString) ∧
    ∃ context, InitalArguments true hostSetting.ToString = some (0, context) ∧
      context.argv = stored ([] :: hostSetting.options) := by
  have hplain : hostSetting.Plain := ⟨by decide, by decide, by decide, by decide⟩
  obtain ⟨hnever, -, hsettings⟩ := InitalArguments_never true hostSetting.ToString hostSetting
  refine ⟨hnever, ?_⟩
  obtain ⟨context, hresult, hargv⟩ := hsettings hplain (by decide)
  exact ⟨context, hresult, hargv.mpr (by decide)⟩

/-- One word: the block has one element, and the word is stored behind it. -/
theorem one_word_outside : ∃ context, InitalArguments true (ascii "a") = some (0, context) ∧
    context.slots = 1 ∧ context.argv 1 = some (ascii "a") ∧
    ¬ ArgumentsRight (InitalArguments true (ascii "a")) := by
  refine ⟨_, InitalArguments_spec ⟨by decide, by decide⟩, rfl, rfl,
    not_argumentsRight true (ascii "a")⟩

end FreeRdp

end TiraRdp
