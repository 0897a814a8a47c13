import BuildPlanner.Diagnostic.Template
import BuildPlanner.Proofs.Fault
import BuildPlanner.Proofs.Text.Bytes
import BuildPlanner.Proofs.Text.Decimal

/-!
What templates are made of, and what comes of them.

A template is filled in exactly if it is made of plain characters, doubled percent signs and
placeholders of arguments that there are, where a placeholder ends with the last of its digits. Each
of these pieces is filled in for itself, so nothing that an argument says is read as a part of the
template. Whether a template is made of such pieces depends on the number of the arguments alone,
so for the templates of diagnostics it is enough to try each of them once.
-/

namespace BuildPlanner.Diagnostic

open Text (byteChars bytewise)
open Text.Decimal (IsNumeral value word?)

/-! ### Definitions -/

inductive Piece
  | plain (c : Char)
  | percent
  | place (ds : List Char)
deriving DecidableEq, Repr

def Piece.filled (args : List Argument) : Piece → List Char
  | plain c => [c]
  | percent => ['%']
  | place ds => (args[value ds]?.map Argument.render).getD []

/-- A text is made of pieces, in order, whose placeholders are for the first `n` arguments. No digit
follows a placeholder. -/
inductive MadeOf (n : Nat) : List Char → List Piece → Prop
  | nil : MadeOf n [] []
  | plain {c : Char} {cs : List Char} {ps : List Piece} (hc : c ≠ '%') (h : MadeOf n cs ps) :
    MadeOf n (c :: cs) (.plain c :: ps)
  | percent {cs : List Char} {ps : List Piece} (h : MadeOf n cs ps) :
    MadeOf n ('%' :: '%' :: cs) (.percent :: ps)
  | place {ds cs : List Char} {ps : List Piece} (hds : IsNumeral ds)
    (hword : value ds ≤ 4294967295) (hlt : value ds < n) (hend : ∀ c ∈ cs.head?, ¬ c.isDigit)
    (h : MadeOf n cs ps) : MadeOf n ('%' :: (ds ++ cs)) (.place ds :: ps)

/-- A text with its percent signs doubled. -/
def escape (text : String) : String :=
  String.ofList (text.toList.flatMap fun c => if c = '%' then ['%', '%'] else [c])

def Code.arity : Code → Nat
  | .moduleAliasInvalid | .moduleAliasMapConflict | .moduleAliasNonSubstitutable
  | .moduleAliasingRequiresTools => 3
  | .moduleAliasAmbiguous | .moduleAliasConflict | .moduleAliasUnapplied => 4
  | .duplicateProductName | .productAliasingRequiresTools => 2
  | .dependencyCycle => 1
  | .destinationConflict => 6

/-- An argument whose texts are taken for their bytes, one by one. -/
def Argument.bytewise : Argument → Argument
  | text s => text (Text.bytewise s)
  | list names => list (names.map Text.bytewise)
  | number n => number n

variable {args : List Argument} {ds cs out : List Char}

/-! ### Pieces -/

lemma placeholder_eq_ok_iff : placeholder args ds = .ok out ↔ IsNumeral ds ∧
    value ds ≤ 4294967295 ∧ value ds < args.length ∧ (Piece.place ds).filled args = out := by
  unfold placeholder Piece.filled
  cases hword : word? ds with
  | none =>
    refine iff_of_false (by simp) ?_
    rintro ⟨hds, hle, -⟩
    have hvalue : (UInt32.ofNat (value ds)).toNat = value ds :=
      UInt32.toNat_ofNat_of_lt' (Nat.lt_succ_of_le hle)
    have hread : word? ds = some (UInt32.ofNat (value ds)) :=
      Text.Decimal.word?_eq_some.2 ⟨hds, hvalue.symm⟩
    cases hword.symm.trans hread
  | some n =>
    obtain ⟨hds, hvalue⟩ := Text.Decimal.word?_eq_some.1 hword
    have hle : n.toNat ≤ 4294967295 := Nat.le_of_lt_succ n.toNat_lt
    dsimp only
    rw [hvalue, and_iff_right hds, and_iff_right hle]
    by_cases hn : n.toNat < args.length <;> simp [hn]

/-- What is filled in is made of pieces, a pending percent sign and its digits included. -/
lemma madeOf_of_substitute {pending : Option (List Char)}
    (h : substitute args pending cs = .ok out) :
    ∃ ps, MadeOf args.length (pending.elim cs fun ds => '%' :: (ds ++ cs)) ps := by
  fun_induction substitute args pending cs generalizing out with
  | case1 => exact ⟨[], .nil⟩
  | case2 cs ih => exact ih h
  | case3 c cs hc ih =>
    obtain ⟨rest, hrest, -⟩ := Fault.bind_eq_ok.1 h
    obtain ⟨ps, hps⟩ := ih hrest
    exact ⟨_, .plain hc hps⟩
  | case4 ds =>
    obtain ⟨hds, hword, hlt, -⟩ := placeholder_eq_ok_iff.1 h
    exact ⟨_, .place hds hword hlt (by simp) .nil⟩
  | case5 ds c cs hc ih =>
    obtain ⟨ps, hps⟩ := ih h
    exact ⟨ps, by simpa using hps⟩
  -- A second percent sign right behind the first.
  | case6 ds c cs hc hboth ih =>
    obtain ⟨rfl, rfl⟩ := hboth
    obtain ⟨rest, hrest, -⟩ := Fault.bind_eq_ok.1 h
    obtain ⟨ps, hps⟩ := ih hrest
    exact ⟨_, .percent hps⟩
  -- The placeholder ends, and `c` is a percent sign or stands for itself.
  | case7 ds c cs hc hboth ihpercent ih =>
    obtain ⟨a, ha, h⟩ := Fault.bind_eq_ok.1 h
    obtain ⟨hds, hword, hlt, -⟩ := placeholder_eq_ok_iff.1 ha
    have hrest : ∃ ps, MadeOf args.length (c :: cs) ps := by
      split at h
      · next hpercent =>
        obtain ⟨rest, hrest, -⟩ := Fault.bind_eq_ok.1 h
        rw [hpercent]
        exact ihpercent hrest
      · next hplain =>
        obtain ⟨rest, hrest, -⟩ := Fault.bind_eq_ok.1 h
        obtain ⟨ps, hps⟩ := ih hrest
        exact ⟨_, .plain hplain hps⟩
    obtain ⟨ps, hps⟩ := hrest
    exact ⟨_, .place hds hword hlt (by simpa using hc) hps⟩

lemma substitute_percent (args : List Argument) (cs : List Char) :
    substitute args none ('%' :: cs) = substitute args (some []) cs := by
  rw [substitute, if_pos rfl]

lemma substitute_digits (hds : ∀ d ∈ ds, d.isDigit) (seen cs : List Char) :
    substitute args (some seen) (ds ++ cs) = substitute args (some (seen ++ ds)) cs := by
  induction ds generalizing seen with
  | nil => simp
  | cons d ds ih =>
    obtain ⟨hd, hds⟩ := List.forall_mem_cons.1 hds
    rw [List.cons_append, substitute, if_pos hd, ih hds]
    simp

/-- Where the digits of a placeholder end, its argument is put in. -/
lemma substitute_pending (hend : ∀ c ∈ cs.head?, ¬ c.isDigit)
    (hopen : ds ≠ [] ∨ ∀ c ∈ cs.head?, c ≠ '%') :
    substitute args (some ds) cs = do
      let a ← placeholder args ds
      return a ++ (← substitute args none cs) := by
  cases cs with
  | nil =>
    simp only [substitute]
    cases placeholder args ds <;> simp [pure, Except.pure, bind, Except.bind]
  | cons c cs =>
    have hc : ¬ c.isDigit := hend c rfl
    have hboth : ¬ (c = '%' ∧ ds = []) := by
      rintro ⟨rfl, rfl⟩
      simp at hopen
    simp only [substitute, if_neg hc, if_neg hboth]
    refine congrArg _ (funext fun a => ?_)
    split
    · rfl
    · cases substitute args none cs <;> rfl

lemma MadeOf.substitute_eq {ps : List Piece} (h : MadeOf args.length cs ps) :
    substitute args none cs = .ok (ps.flatMap (Piece.filled args)) := by
  induction h with
  | nil => rfl
  | plain hc _ ih => simp [substitute, hc, ih, Piece.filled]
  | percent _ ih => simp [substitute, ih, Piece.filled]
  | @place ds cs ps hds hword hlt hend _ ih =>
    have hplaced : placeholder args ds = .ok ((Piece.place ds).filled args) :=
      placeholder_eq_ok_iff.2 ⟨hds, hword, hlt, rfl⟩
    rw [substitute_percent, substitute_digits hds.2, List.nil_append,
      substitute_pending hend (.inl hds.1), hplaced, ih]
    rfl

/-- **A template is filled in exactly if it is made of pieces, and then piece by piece.** -/
lemma format_eq_ok_iff {template text : String} : format template args = .ok text ↔
    ∃ ps, MadeOf args.length template.toList ps ∧
      ps.flatMap (Piece.filled args) = text.toList := by
  have hformat : format template args = .ok text ↔
      substitute args none template.toList = .ok text.toList := by
    rw [format]
    cases substitute args none template.toList <;> simp [Except.map, ← String.toList_inj]
  rw [hformat]
  refine ⟨fun h => ?_, ?_⟩
  · obtain ⟨ps, hps⟩ := madeOf_of_substitute h
    exact ⟨ps, hps, Except.ok.inj (hps.substitute_eq.symm.trans h)⟩
  · rintro ⟨ps, hps, hfilled⟩
    rw [hps.substitute_eq, hfilled]

lemma format_escape (text : String) (args : List Argument) :
    format (escape text) args = .ok text := by
  let piece (c : Char) : Piece := if c = '%' then .percent else .plain c
  have hfilled (c : Char) : (piece c).filled args = [c] := by
    by_cases hc : c = '%' <;> simp [piece, hc, Piece.filled]
  rw [format_eq_ok_iff, escape, String.toList_ofList]
  refine ⟨text.toList.map piece, ?_, ?_⟩
  · induction text.toList with
    | nil => exact .nil
    | cons c cs ih =>
      by_cases hc : c = '%'
      · simpa [piece, hc] using MadeOf.percent ih
      · simpa [piece, hc] using MadeOf.plain hc ih
  · simp [List.flatMap_map, hfilled]

/-! ### Messages -/

lemma length_arguments (d : Diagnostic) : d.arguments.length = d.code.arity := by
  cases d <;> rfl

lemma Code.exists_madeOf (c : Code) : ∃ ps, MadeOf c.arity c.template.toList ps := by
  have hblank : (format c.template (List.replicate c.arity (.text ""))).toOption.isSome = true := by
    cases c <;> decide +kernel
  obtain ⟨text, htext⟩ := Option.isSome_iff_exists.1 hblank
  obtain ⟨ps, hps, -⟩ := format_eq_ok_iff.1 (Fault.toOption_eq_some.1 htext)
  rw [List.length_replicate] at hps
  exact ⟨ps, hps⟩

lemma exists_message (d : Diagnostic) : ∃ text, message d = .ok text := by
  obtain ⟨ps, hps⟩ := d.code.exists_madeOf
  rw [← length_arguments] at hps
  exact ⟨String.ofList (ps.flatMap (Piece.filled d.arguments)),
    format_eq_ok_iff.2 ⟨ps, hps, by simp⟩⟩

/-! ### Bytes -/

lemma quotedList_bytewise (names : List String) :
    Name.quotedList (names.map bytewise) = bytewise (Name.quotedList names) := by
  have hquote (name : String) : "'" ++ bytewise name ++ "'" = bytewise ("'" ++ name ++ "'") := by
    have hmark : bytewise "'" = "'" := by decide +kernel
    rw [Text.bytewise_append, Text.bytewise_append, hmark]
  have hcomma : bytewise ", " = ", " := by decide +kernel
  unfold Name.quotedList
  rw [List.map_map]
  induction names with
  | nil => rfl
  | cons a names ih =>
    cases names with
    | nil => simp [hquote]
    | cons b names =>
      simp only [List.map_cons, String.intercalate_cons_cons, Function.comp_apply, hquote,
        Text.bytewise_append, hcomma] at ih ⊢
      rw [ih]

lemma render_bytewise (a : Argument) : a.bytewise.render = a.render.flatMap byteChars := by
  cases a with
  | text s => exact Text.toList_bytewise s
  | list names =>
    change (Name.quotedList (names.map bytewise)).toList = _
    rw [quotedList_bytewise, Text.toList_bytewise]
    rfl
  | number n =>
    refine Eq.symm ((List.flatMap_congr fun d hd => ?_).trans (List.flatMap_singleton' _))
    have hrange := Text.Decimal.toNat_of_isDigit ((Text.Decimal.isNumeral_digits n).2 d hd)
    exact Text.byteChars_of_lt (by omega)

lemma placeholder_bytewise (args : List Argument) (ds : List Char) :
    placeholder (args.map Argument.bytewise) ds =
      (placeholder args ds).map (·.flatMap byteChars) := by
  unfold placeholder
  cases word? ds with
  | none => rfl
  | some n =>
    dsimp only
    rw [List.getElem?_map]
    cases args[n.toNat]? with
    | none => rfl
    | some a => exact congrArg Except.ok (render_bytewise a)

section

variable {b c : Char} (hb : b ∈ byteChars c)

include hb

lemma not_isDigit_of_mem_byteChars (hc : ¬ c.isDigit) : ¬ b.isDigit := by
  rcases Text.eq_or_le_of_mem_byteChars hb with rfl | hle
  · exact hc
  · intro hdigit
    have hrange := Text.Decimal.toNat_of_isDigit hdigit
    omega

lemma ne_percent_of_mem_byteChars (hc : c ≠ '%') : b ≠ '%' := by
  rcases Text.eq_or_le_of_mem_byteChars hb with rfl | hle
  · exact hc
  · rintro rfl
    simp at hle

end

lemma substitute_plain {bs : List Char} (hbs : ∀ b ∈ bs, b ≠ '%') (cs : List Char) :
    substitute args none (bs ++ cs) = (substitute args none cs).map (bs ++ ·) := by
  induction bs with
  | nil => cases h : substitute args none cs <;> simp [h, Except.map]
  | cons b bs ih =>
    obtain ⟨hb, hbs⟩ := List.forall_mem_cons.1 hbs
    rw [List.cons_append, substitute, if_neg hb, ih hbs]
    cases substitute args none cs <;> rfl

/-- Percent signs and digits are bytes of their own, and no other character has such bytes. -/
lemma substitute_bytewise (pending : Option (List Char)) (cs : List Char) :
    substitute (args.map Argument.bytewise) pending (cs.flatMap byteChars) =
      (substitute args pending cs).map (·.flatMap byteChars) := by
  have hpercent : byteChars '%' = ['%'] := Text.byteChars_of_lt (by decide)
  have hplain {c : Char} {cs : List Char} (hc : c ≠ '%')
      (ih : substitute (args.map Argument.bytewise) none (cs.flatMap byteChars) =
        (substitute args none cs).map (·.flatMap byteChars)) :
      substitute (args.map Argument.bytewise) none ((c :: cs).flatMap byteChars) =
        (substitute args none (c :: cs)).map (·.flatMap byteChars) := by
    have hchars : ∀ b ∈ byteChars c, b ≠ '%' := fun b hb => ne_percent_of_mem_byteChars hb hc
    rw [List.flatMap_cons, substitute_plain hchars, ih, substitute, if_neg hc]
    cases substitute args none cs <;> rfl
  induction pending, cs using substitute.induct with
  | case1 => rfl
  | case2 cs ih =>
    rw [List.flatMap_cons, hpercent, List.singleton_append, substitute_percent, ih,
      substitute_percent]
  | case3 c cs hc ih => exact hplain hc ih
  | case4 ds => exact placeholder_bytewise args ds
  | case5 ds c cs hc ih =>
    have hrange := Text.Decimal.toNat_of_isDigit hc
    rw [List.flatMap_cons, Text.byteChars_of_lt (by omega), List.singleton_append, substitute,
      if_pos hc, ih, substitute, if_pos hc]
  | case6 ds c cs hc hboth ih =>
    obtain ⟨rfl, rfl⟩ := hboth
    rw [List.flatMap_cons, hpercent, List.singleton_append, substitute, if_neg hc,
      if_pos ⟨rfl, rfl⟩, ih, substitute, if_neg hc, if_pos ⟨rfl, rfl⟩]
    cases substitute args none cs with
    | error f => rfl
    | ok out => simp [Except.map, pure, Except.pure, bind, Except.bind, hpercent]
  | case7 ds c cs hc hboth ihpercent ih =>
    -- Neither the character nor the first of its bytes goes on with the placeholder.
    have hrest : substitute (args.map Argument.bytewise) none ((c :: cs).flatMap byteChars) =
        (substitute args none (c :: cs)).map (·.flatMap byteChars) := by
      by_cases hc : c = '%'
      · rw [hc, List.flatMap_cons, hpercent, List.singleton_append, substitute_percent, ihpercent,
          substitute_percent]
      · exact hplain hc ih
    have hopen : ds ≠ [] ∨ c ≠ '%' := by
      rw [← not_and_or, and_comm]
      exact hboth
    have hread : substitute args (some ds) (c :: cs) = do
        let a ← placeholder args ds
        return a ++ (← substitute args none (c :: cs)) :=
      substitute_pending (by simpa using hc) (by simpa using hopen)
    rw [hread, substitute_pending, placeholder_bytewise, hrest]
    · cases placeholder args ds with
      | error f => rfl
      | ok a =>
        cases substitute args none (c :: cs) with
        | error f => rfl
        | ok out => simp [Except.map, pure, Except.pure, bind, Except.bind]
    · exact fun b hb => not_isDigit_of_mem_byteChars (Text.mem_byteChars_of_mem_head? hb) hc
    · exact hopen.imp_right fun hne b hb =>
        ne_percent_of_mem_byteChars (Text.mem_byteChars_of_mem_head? hb) hne

lemma format_bytewise (template : String) (args : List Argument) :
    format (bytewise template) (args.map Argument.bytewise) =
      (format template args).map bytewise := by
  rw [format, format, Text.toList_bytewise, substitute_bytewise]
  cases substitute args none template.toList with
  | error f => rfl
  | ok out =>
    refine congrArg Except.ok ?_
    rw [← String.toList_inj, Text.toList_bytewise, String.toList_ofList, String.toList_ofList]

/-! ### Formatting -/

/-- **Formatting is exact substitution.** A template is formatted exactly if it is made of
characters other than percent signs, doubled percent signs and placeholders, each of which is a
percent sign with all the digits behind it, at least one, that give the index of an argument in a
word. The result is what comes of these pieces in order, where an argument is put in as it is. So a
text with its percent signs doubled is given back, and every diagnostic has a wording, whatever its
names are. It makes no difference to take all texts for the characters that their bytes are one by
one, so the same holds of all texts that are given by bytes. -/
theorem format_substitutes :
    (∀ template args text, format template args = .ok text ↔
      ∃ ps, MadeOf args.length template.toList ps ∧
        ps.flatMap (Piece.filled args) = text.toList) ∧
    (∀ text args, format (escape text) args = .ok text) ∧
    (∀ d : Diagnostic, ∃ text, message d = .ok text) ∧
    ∀ template args, format (bytewise template) (args.map Argument.bytewise) =
      (format template args).map bytewise :=
  ⟨fun _ _ _ => format_eq_ok_iff, format_escape, exists_message, format_bytewise⟩

/-- The percent sign of an argument is not read again. -/
example : format "'%0' is 100%% of %1" [.text "%1", .number 7] = .ok "'%1' is 100% of 7" := by
  decide +kernel

end BuildPlanner.Diagnostic
