import Shost.Verified.Bytes

/-!
# Slash-separated paths

A path is cut at its slashes into segments.  There are two ways of taking `.` and `..` out
of one: `clean` rewrites a path, empty segments included, and `resolve` follows a relative
reference from the root, where an empty segment is one like any other.

## Main results

* `clean_slash` — what cleaning leaves of a rooted path are proper segments.
* `removeDots_of_proper` — following a reference keeps proper segments as they are.
-/

namespace Shost.Verified

namespace Paths

def slash : UInt8 := 0x2F

def dot : UInt8 := 0x2E

/-- The segment that stays where it is. -/
def here : Bytes := [dot]

/-- The segment that goes up. -/
def up : Bytes := [dot, dot]

def segments (path : Bytes) : List Bytes := path.splitOn slash

def join (segs : List Bytes) : Bytes := [slash].intercalate segs

/-- A segment that names something. -/
def Proper (seg : Bytes) : Prop := seg ≠ [] ∧ seg ≠ here ∧ seg ≠ up

instance : DecidablePred Proper := fun _ => inferInstanceAs (Decidable (_ ∧ _))

/-- A path all of whose segments name something. -/
def Plain (path : Bytes) : Prop := ∀ seg ∈ segments path, Proper seg

instance : DecidablePred Plain := fun path =>
  inferInstanceAs (Decidable (∀ seg ∈ segments path, Proper seg))

/-! ## Cutting and joining -/

theorem segments_ne_nil (path : Bytes) : segments path ≠ [] := List.splitOn_ne_nil slash path

@[simp] theorem join_segments (path : Bytes) : join (segments path) = path :=
  List.intercalate_splitOn slash

theorem segments_join {segs : List Bytes} (hslash : ∀ seg ∈ segs, slash ∉ seg)
    (hne : segs ≠ []) : segments (join segs) = segs :=
  List.splitOn_intercalate slash hslash hne

@[simp] theorem segments_slash (path : Bytes) : segments (slash :: path) = [] :: segments path :=
  @List.splitOn_append_cons_self_of_not_mem _ [] _ _ slash (by simp) path

theorem slash_not_mem_of_mem_segments {path seg : Bytes} (hseg : seg ∈ segments path) :
    slash ∉ seg := by
  induction path generalizing seg with
  | nil =>
      rw [segments, List.splitOn_nil, List.mem_singleton] at hseg
      simp [hseg]
  | cons c path ih =>
      rw [segments, List.splitOn_cons_eq_if_modifyHead] at hseg
      cases hsegs : segments path with
      | nil => exact absurd hsegs (segments_ne_nil path)
      | cons first others =>
          rw [hsegs] at ih
          rw [show path.splitOn slash = first :: others from hsegs] at hseg
          split at hseg
          · rcases List.mem_cons.mp hseg with rfl | hseg
            · simp
            · exact ih hseg
          · next hc =>
              rcases List.mem_cons.mp hseg with rfl | hseg
              · have hslash : slash ≠ c := fun heq => hc (by simp [heq])
                simpa [hslash] using ih (List.mem_cons_self ..)
              · exact ih (List.mem_cons_of_mem _ hseg)

/-! ## Cleaning -/

/-- The stack of kept segments without its top; a relative path may begin with `..`. -/
def goUp (rooted : Bool) : List Bytes → List Bytes
  | [] => if rooted then [] else [up]
  | top :: below => if top = up then up :: top :: below else below

/-- One more segment on the stack of those that are kept. -/
def push (rooted : Bool) (stack : List Bytes) (seg : Bytes) : List Bytes :=
  if seg = [] ∨ seg = here then stack
  else if seg = up then goUp rooted stack
  else seg :: stack

/-- The shortest path that names the same. -/
def clean (path : Bytes) : Bytes :=
  let rooted := path.head? = some slash
  let stack := (segments path).foldl (push rooted) []
  if rooted then slash :: join stack.reverse
  else if stack = [] then here else join stack.reverse

theorem push_of_proper {seg : Bytes} (hseg : Proper seg) (rooted : Bool) (stack : List Bytes) :
    push rooted stack seg = seg :: stack := by
  rw [push, if_neg (by simp [hseg.1, hseg.2.1]), if_neg hseg.2.2]

theorem foldl_push_of_proper {segs : List Bytes} (hsegs : ∀ seg ∈ segs, Proper seg)
    (rooted : Bool) (stack : List Bytes) :
    segs.foldl (push rooted) stack = segs.reverse ++ stack := by
  induction segs generalizing stack with
  | nil => rfl
  | cons seg segs ih =>
      rw [List.foldl_cons, push_of_proper (hsegs seg (by simp)), ih fun s hs => hsegs s (by simp [hs])]
      simp

theorem mem_goUp {stack : List Bytes} {kept : Bytes} (hkept : kept ∈ goUp true stack) :
    kept ∈ stack := by
  cases stack with
  | nil => exact hkept
  | cons top below =>
      rw [goUp] at hkept
      split at hkept
      · next htop =>
          rw [htop] at hkept ⊢
          simpa using hkept
      · exact List.mem_cons_of_mem _ hkept

/-- Whatever the cleaning of a rooted path keeps names something. -/
theorem mem_foldl_push {segs stack : List Bytes} {kept : Bytes}
    (hkept : kept ∈ segs.foldl (push true) stack) :
    kept ∈ stack ∨ kept ∈ segs ∧ Proper kept := by
  induction segs generalizing stack with
  | nil => exact .inl hkept
  | cons seg segs ih =>
      rcases ih hkept with hpush | ⟨hmem, hproper⟩
      · rw [push] at hpush
        split at hpush
        · exact .inl hpush
        · next hempty =>
            split at hpush
            · exact .inl (mem_goUp hpush)
            · next hup =>
                simp only [not_or] at hempty
                rcases List.mem_cons.mp hpush with rfl | hstack
                · exact .inr ⟨by simp, hempty.1, hempty.2, hup⟩
                · exact .inl hstack
      · exact .inr ⟨by simp [hmem], hproper⟩

/-- What is left of a rooted path. -/
def kept (path : Bytes) : List Bytes := ((segments path).foldl (push true) []).reverse

theorem clean_slash (path : Bytes) : clean (slash :: path) = slash :: join (kept path) := by
  rw [clean, kept]
  simp [push]

theorem mem_kept {path seg : Bytes} (hseg : seg ∈ kept path) : seg ∈ segments path ∧ Proper seg := by
  rw [kept, List.mem_reverse] at hseg
  exact (mem_foldl_push hseg).resolve_left (by simp)

theorem kept_of_plain {path : Bytes} (hpath : Plain path) : kept path = segments path := by
  rw [kept, foldl_push_of_proper hpath]
  simp

@[simp] theorem kept_slash (path : Bytes) : kept (slash :: path) = kept path := by
  simp [kept, push]

/-- Only a plain path is what is left of a rooted path. -/
theorem plain_of_join_kept {path : Bytes} (hne : join (kept path) ≠ []) :
    Plain (join (kept path)) := by
  have hkept : kept path ≠ [] := fun h => hne (by rw [h]; rfl)
  intro seg hseg
  rw [segments_join (fun s hs => slash_not_mem_of_mem_segments (mem_kept hs).1) hkept] at hseg
  exact (mem_kept hseg).2

/-! ## Relative references -/

/-- The segments of a reference without `.` and `..`; behind one at the end a slash stays. -/
def removeDots (out : List Bytes) : List Bytes → List Bytes
  | [] => out.reverse
  | [seg] =>
      (if seg = here then [] :: out else if seg = up then [] :: out.tail else seg :: out).reverse
  | seg :: next :: rest =>
      removeDots (if seg = here then out else if seg = up then out.tail else seg :: out) (next :: rest)

/-- The path of a relative reference that is followed from the root. -/
def resolve (ref : Bytes) : Bytes := slash :: join (removeDots [] (segments ref))

theorem removeDots_of_proper {segs : List Bytes} (hsegs : ∀ seg ∈ segs, Proper seg)
    (out : List Bytes) : removeDots out segs = out.reverse ++ segs := by
  induction segs generalizing out with
  | nil => simp [removeDots]
  | cons seg segs ih =>
      have hseg : Proper seg := hsegs seg (by simp)
      cases segs with
      | nil => simp [removeDots, hseg.2.1, hseg.2.2]
      | cons next rest =>
          rw [removeDots, if_neg hseg.2.1, if_neg hseg.2.2, ih fun s hs => hsegs s (by simp [hs])]
          simp

/-- A reference that starts where it is. -/
theorem resolve_here (path : Bytes) :
    resolve (dot :: slash :: path) = resolve path := by
  have hsegments : segments (dot :: slash :: path) = here :: segments path :=
    @List.splitOn_append_cons_self_of_not_mem _ here _ _ slash (by decide) path
  rw [resolve, resolve, hsegments]
  cases hsegs : segments path with
  | nil => exact absurd hsegs (segments_ne_nil path)
  | cons seg segs => rw [removeDots, if_pos rfl]

end Paths

end Shost.Verified
