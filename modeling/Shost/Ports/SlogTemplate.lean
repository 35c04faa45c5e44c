import Shost.Verified.Bytes

/-!
# The message templates of the slog adapter

`renderTemplate` replaces the named placeholders of a template by the printed
arguments and makes an attribute of each.  It walks the template with a shifting
remainder, two index searches and a cursor into the arguments.

What it computes is said without any index: `Cuts` cuts a template into literal text and
placeholders, `fill` puts the arguments in, and `names` lists the placeholders that take one.

## Main results

* `renderTemplate_fills` — the loop fills the pieces of the only cut of the template.
-/

namespace Shost.Ports.Slog

open Verified Bytes

/-- An attribute of a record: the name of the placeholder and the argument. -/
abbrev Attr (α : Type*) := Bytes × α

def openBrace : UInt8 := 0x7B

def closeBrace : UInt8 := 0x7D

variable {α : Type*} (print : α → Bytes) (args : List α)

/-- The loop of `renderTemplate`; `print` is the formatting of an argument by `%v`. -/
def renderLoop (rest msg : Bytes) (attrs : List (Attr α)) (next : Nat) :
    Bytes × List (Attr α) :=
  match hopen : rest.indexByte openBrace with
  | none => (msg ++ rest, attrs)
  | some open' =>
      match Bytes.indexByte (rest.drop open') closeBrace with
      | none => (msg ++ rest, attrs)
      | some clos =>
          have hshorter : (rest.drop (open' + clos + 1)).length < rest.length := by
            have hlt := indexByte_lt hopen
            rw [List.length_drop]
            omega
          let name := rest.slice (open' + 1) (open' + clos)
          if hname : name = [] ∨ args.length ≤ next then
            renderLoop (rest.drop (open' + clos + 1)) (msg ++ rest.take (open' + clos + 1)) attrs next
          else
            have hnext : next < args.length := by omega
            renderLoop (rest.drop (open' + clos + 1)) (msg ++ rest.take open' ++ print args[next])
              (attrs ++ [(name, args[next])]) (next + 1)
termination_by rest.length

def renderTemplate (template : Bytes) (args : List α) : Bytes × List (Attr α) :=
  if openBrace ∉ template then (template, []) else renderLoop print args template [] [] 0

/-! ## The reference renderer -/

/-- A piece of a template. -/
inductive Piece
  | text (literal : Bytes)
  | hole (name : Bytes)

namespace Piece

/-- How the piece stands in the template. -/
@[simp] def bytes : Piece → Bytes
  | text literal => literal
  | hole name => openBrace :: (name ++ [closeBrace])

/-- The name of a placeholder that takes an argument. -/
@[simp] def name? : Piece → Option Bytes
  | text _ => none
  | hole [] => none
  | hole name => some name

end Piece

open Piece

/--
The pieces of a template from left to right.  A placeholder runs from an opening brace
to the first closing brace behind it.
-/
inductive Cuts : Bytes → List Piece → Prop
  | rest {literal : Bytes} : openBrace ∉ literal → Cuts literal [text literal]
  /-- the brace is never closed -/
  | unclosed {literal rest : Bytes} : openBrace ∉ literal → closeBrace ∉ rest →
      Cuts (literal ++ openBrace :: rest) [text (literal ++ openBrace :: rest)]
  | hole {literal name rest : Bytes} {pieces : List Piece} : openBrace ∉ literal →
      closeBrace ∉ name → Cuts rest pieces →
      Cuts (literal ++ openBrace :: (name ++ closeBrace :: rest))
        (text literal :: hole name :: pieces)

/-- The pieces with the arguments in place of the placeholders that take one. -/
def fill : List Piece → List α → Bytes
  | [], _ => []
  | piece :: pieces, [] => piece.bytes ++ fill pieces []
  | piece :: pieces, arg :: args =>
      if piece.name?.isSome then print arg ++ fill pieces args
      else piece.bytes ++ fill pieces (arg :: args)

/-- The names of the placeholders that take an argument. -/
def names (pieces : List Piece) : List Bytes := pieces.filterMap name?

section Fill

variable {print} {name : Bytes} {arg : α} {pieces : List Piece}

@[simp] theorem fill_nil : fill print [] args = [] := by
  cases args <;> rfl

theorem fill_text (literal : Bytes) :
    fill print (text literal :: pieces) args = literal ++ fill print pieces args := by
  cases args <;> rfl

theorem fill_unnamed : fill print (hole [] :: pieces) args =
    (hole []).bytes ++ fill print pieces args := by
  cases args <;> rfl

theorem fill_hole (hname : name ≠ []) :
    fill print (hole name :: pieces) (arg :: args) = print arg ++ fill print pieces args := by
  cases name with
  | nil => exact absurd rfl hname
  | cons c name => rfl

/-- Without arguments every piece stands as it is. -/
theorem fill_no_args (pieces : List Piece) : fill print pieces [] = pieces.flatMap bytes := by
  induction pieces with
  | nil => rfl
  | cons piece pieces ih => rw [fill, ih, List.flatMap_cons]

@[simp] theorem names_nil : names [] = [] := rfl

@[simp] theorem names_text (literal : Bytes) : names (text literal :: pieces) = names pieces := rfl

@[simp] theorem names_unnamed : names (hole [] :: pieces) = names pieces := rfl

theorem names_hole (hname : name ≠ []) : names (hole name :: pieces) = name :: names pieces := by
  cases name with
  | nil => exact absurd rfl hname
  | cons c name => rfl

/-- Arguments that print as their own placeholders leave the pieces as they are. -/
theorem fill_own (hown : ∀ attr ∈ (names pieces).zip args, print attr.2 = (hole attr.1).bytes) :
    fill print pieces args = pieces.flatMap bytes := by
  induction pieces generalizing args with
  | nil => simp
  | cons piece pieces ih =>
      cases piece with
      | text literal => rw [fill_text, List.flatMap_cons, ih _ (by simpa using hown), bytes]
      | hole name =>
          by_cases hname : name = []
          · subst hname
            rw [fill_unnamed, List.flatMap_cons, ih _ (by simpa using hown)]
          · cases args with
            | nil => exact fill_no_args _
            | cons arg args =>
                rw [names_hole hname, List.zip_cons_cons] at hown
                rw [fill_hole _ hname, List.flatMap_cons, hown (name, arg) (by simp),
                  ih args fun attr hattr => hown attr (by simp [hattr])]

end Fill

theorem Cuts.flatMap_bytes {template : Bytes} {pieces : List Piece} (h : Cuts template pieces) :
    pieces.flatMap bytes = template := by
  induction h with
  | rest hliteral => simp
  | unclosed hliteral hrest => simp
  | hole hliteral hname _ ih => simp [ih]

/-- A template is cut in one way only. -/
theorem Cuts.unique {template : Bytes} {pieces pieces' : List Piece} (h : Cuts template pieces)
    (h' : Cuts template pieces') : pieces = pieces' := by
  induction h generalizing pieces' with
  | @rest literal hliteral =>
      generalize heq : literal = template at h'
      cases h' with
      | rest _ => rfl
      | unclosed _ _ => simp [heq] at hliteral
      | hole _ _ _ => simp [heq] at hliteral
  | @unclosed literal rest hliteral hrest =>
      generalize heq : literal ++ openBrace :: rest = template at h'
      cases h' with
      | rest hliteral' => simp [← heq] at hliteral'
      | unclosed _ _ => rfl
      | hole hliteral' _ _ =>
          obtain ⟨-, hnames⟩ := append_cons_inj hliteral hliteral' heq
          simp [hnames] at hrest
  | @hole literal name rest pieces hliteral hname hcut ih =>
      generalize heq : literal ++ openBrace :: (name ++ closeBrace :: rest) = template at h'
      cases h' with
      | rest hliteral' => simp [← heq] at hliteral'
      | unclosed hliteral' hrest' =>
          obtain ⟨-, hnames⟩ := append_cons_inj hliteral hliteral' heq
          simp [← hnames] at hrest'
      | hole hliteral' hname' hcut' =>
          obtain ⟨rfl, hnames⟩ := append_cons_inj hliteral hliteral' heq
          obtain ⟨rfl, rfl⟩ := append_cons_inj hname hname' hnames
          rw [ih hcut']

/-- Every template is cut. -/
theorem exists_cuts (template : Bytes) : ∃ pieces, Cuts template pieces := by
  induction hlength : template.length using Nat.strongRecOn generalizing template with
  | ind length ih =>
      by_cases hopen : openBrace ∈ template
      · obtain ⟨literal, tail, rfl, hliteral⟩ := List.eq_append_cons_of_mem hopen
        by_cases hclose : closeBrace ∈ tail
        · obtain ⟨name, rest, rfl, hname⟩ := List.eq_append_cons_of_mem hclose
          have hshorter : rest.length < length := by
            simp only [List.length_append, List.length_cons] at hlength
            omega
          obtain ⟨pieces, hpieces⟩ := ih rest.length hshorter rest rfl
          exact ⟨_, .hole hliteral hname hpieces⟩
        · exact ⟨_, .unclosed hliteral hclose⟩
      · exact ⟨_, .rest hopen⟩

/-! ## The loop -/

section Loop

variable {print : α → Bytes} {args : List α} {literal name rest : Bytes} {next : Nat}

theorem renderLoop_rest (hliteral : openBrace ∉ literal) (msg : Bytes) (attrs : List (Attr α)) :
    renderLoop print args literal msg attrs next = (msg ++ literal, attrs) := by
  rw [renderLoop]
  split
  · rfl
  · next open' hopen =>
      rw [indexByte_of_not_mem hliteral] at hopen
      cases hopen

theorem renderLoop_unclosed (hliteral : openBrace ∉ literal) (hrest : closeBrace ∉ rest)
    (msg : Bytes) (attrs : List (Attr α)) :
    renderLoop print args (literal ++ openBrace :: rest) msg attrs next =
      (msg ++ (literal ++ openBrace :: rest), attrs) := by
  have hclose : closeBrace ∉ openBrace :: rest := by
    simpa using ⟨by decide, hrest⟩
  rw [renderLoop]
  split
  · rfl
  · next open' hopen =>
      rw [indexByte_append hliteral] at hopen
      cases hopen
      rw [List.drop_left, indexByte_of_not_mem hclose]

/-- What the loop does at a placeholder. -/
theorem renderLoop_hole (hliteral : openBrace ∉ literal) (hname : closeBrace ∉ name)
    (msg : Bytes) (attrs : List (Attr α)) :
    renderLoop print args (literal ++ openBrace :: (name ++ closeBrace :: rest)) msg attrs next =
      if hkept : name = [] ∨ args.length ≤ next then
        renderLoop print args rest (msg ++ (literal ++ (hole name).bytes)) attrs next
      else
        have hnext : next < args.length := by omega
        renderLoop print args rest (msg ++ literal ++ print args[next])
          (attrs ++ [(name, args[next])]) (next + 1) := by
  have hclose : Bytes.indexByte (openBrace :: (name ++ closeBrace :: rest)) closeBrace =
      some (name.length + 1) := by
    have hname' : closeBrace ∉ openBrace :: name := by simpa using ⟨by decide, hname⟩
    exact indexByte_append hname' rest
  rw [renderLoop]
  split
  · next hopen =>
      rw [indexByte_append hliteral] at hopen
      cases hopen
  · next open' hopen =>
      rw [indexByte_append hliteral] at hopen
      cases hopen
      rw [List.drop_left, hclose]
      simp only [slice_between, drop_between, take_between, List.take_left]
      rfl

/-- **The loop**: from where it stands it fills the pieces of what remains. -/
theorem renderLoop_eq {pieces : List Piece} (hcut : Cuts rest pieces) (msg : Bytes)
    (attrs : List (Attr α)) :
    renderLoop print args rest msg attrs next =
      (msg ++ fill print pieces (args.drop next),
        attrs ++ (names pieces).zip (args.drop next)) := by
  induction hcut generalizing msg attrs next with
  | rest hliteral => rw [renderLoop_rest hliteral, fill_text]; simp
  | unclosed hliteral hrest => rw [renderLoop_unclosed hliteral hrest, fill_text]; simp
  | @hole literal name rest pieces hliteral hname _ ih =>
      rw [renderLoop_hole hliteral hname, fill_text, names_text]
      by_cases hempty : name = []
      · rw [dif_pos (.inl hempty), ih, hempty, fill_unnamed, names_unnamed]
        simp
      · rcases Nat.lt_or_ge next args.length with hnext | hnext
        · have hcons := List.drop_eq_getElem_cons hnext
          rw [dif_neg (by simp [hempty, hnext]), ih, hcons, fill_hole _ hempty, names_hole hempty,
            List.zip_cons_cons]
          simp only [List.append_assoc, List.singleton_append]
        · have hsucc : args.drop next = [] := List.drop_eq_nil_of_le hnext
          rw [dif_pos (.inr hnext), ih, hsucc, fill_no_args, fill_no_args]
          simp

end Loop

/-- The shortcut for templates without a brace is the loop. -/
theorem renderTemplate_eq_renderLoop (template : Bytes) :
    renderTemplate print template args = renderLoop print args template [] [] 0 := by
  rw [renderTemplate]
  split
  · next hopen => rw [renderLoop_rest hopen, List.nil_append]
  · rfl

/--
**Template rendering**: there is one cut of the template, and `renderTemplate` fills its
pieces and makes an attribute of every argument it takes.  Arguments that print as their own
placeholders give the template back.
-/
theorem renderTemplate_fills (template : Bytes) :
    ∃ pieces, Cuts template pieces ∧ (∀ pieces', Cuts template pieces' → pieces' = pieces) ∧
      pieces.flatMap bytes = template ∧
      renderTemplate print template args =
        (fill print pieces args, (names pieces).zip args) ∧
      (renderTemplate print template args).2.length = min (names pieces).length args.length ∧
      ((∀ attr ∈ (renderTemplate print template args).2, print attr.2 = (hole attr.1).bytes) →
        (renderTemplate print template args).1 = template) ∧
      renderTemplate print template args = renderLoop print args template [] [] 0 := by
  obtain ⟨pieces, hcut⟩ := exists_cuts template
  have hloop := renderTemplate_eq_renderLoop print args template
  have hrender : renderTemplate print template args =
      (fill print pieces args, (names pieces).zip args) := by
    rw [hloop, renderLoop_eq hcut, List.drop_zero, List.nil_append, List.nil_append]
  refine ⟨pieces, hcut, fun pieces' hcut' => hcut'.unique hcut, hcut.flatMap_bytes, hrender, ?_,
    fun hown => ?_, hloop⟩
  · rw [hrender, List.length_zip]
  · rw [hrender] at hown ⊢
    exact (fill_own args hown).trans hcut.flatMap_bytes

end Shost.Ports.Slog
