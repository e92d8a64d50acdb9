import Mathlib.Data.List.Basic

set_option relaxedAutoImplicit false
set_option autoImplicit false

/-!
# Length-prefixed messages read from a stream in pieces

A message is a head of fixed length, which declares the length of the body that follows. A
reader receives the message in chunks of any size: it collects the head, parses it, and then
collects the declared number of body symbols. `Format.absorb` is one chunk of that reader.

The results say that a reader in front of one whole message is never led astray by how the
message is cut into chunks: it ends with exactly that message's header and body, having
consumed exactly that message.

## Main definitions

* `Framing.Format` — the head length, the head parser and the declared body length.
* `Framing.Frame` — a well-framed message.
* `Framing.Phase`, `Framing.Format.want`, `Framing.Format.absorb` — the chunk-wise reader.
* `Framing.Expects` — what is still to be read is the rest of one given message.

## Main results

* `Framing.absorb_expects` — a chunk of the expected message leaves the reader expecting the
  rest of it, or completes it and leaves nothing behind.
-/

namespace Framing

variable {β η ε : Type*}

/-- A format of length-prefixed messages over the alphabet `β`: heads of `headLen` symbols,
parsed to headers `η` (or refused with `ε`), each declaring the length of its body. -/
structure Format (β η ε : Type*) where
  headLen : ℕ
  parseHead : List β → Except ε η
  bodyLen : η → ℕ

/-- A well-framed message: the head has the length of the format and declares the body. -/
structure Frame (F : Format β η ε) where
  head : List β
  header : η
  body : List β
  head_length : head.length = F.headLen
  parse_head : F.parseHead head = .ok header
  body_length : body.length = F.bodyLen header

/-- The symbols of a message on the stream. -/
def Frame.bytes {F : Format β η ε} (f : Frame F) : List β := f.head ++ f.body

/-- What a reader has of the current message: a part of the head, or the parsed header and a
part of the body. -/
inductive Phase (β η : Type*) where
  | head (buf : List β)
  | body (header : η) (buf : List β)

/-- A reader that has received nothing yet. -/
def Phase.start : Phase β η := .head []

/-- The outcome of one chunk. -/
inductive Progress (β η ε : Type*) where
  | more (phase : Phase β η)
  | received (header : η) (body : List β)
  | rejected (error : ε)

variable (F : Format β η ε)

/-- The number of symbols the reader still asks for in its current phase. -/
def Format.want : Phase β η → ℕ
  | .head buf => F.headLen - buf.length
  | .body header buf => F.bodyLen header - buf.length

/-- The reader turns to the body of a message with a parsed header; an empty body needs no
further chunk. -/
def Format.enterBody (header : η) : Progress β η ε :=
  if F.bodyLen header = 0 then .received header [] else .more (.body header [])

/-- The reader takes a chunk of at most `want` symbols. -/
def Format.absorb : Phase β η → List β → Progress β η ε
  | .head buf, chunk =>
    if (buf ++ chunk).length < F.headLen then .more (.head (buf ++ chunk))
    else
      match F.parseHead (buf ++ chunk) with
      | .error e => .rejected e
      | .ok header => F.enterBody header
  | .body header buf, chunk =>
    if (buf ++ chunk).length < F.bodyLen header then .more (.body header (buf ++ chunk))
    else .received header (buf ++ chunk)

variable {F}

/-- The reader is inside the message `f`, and `rest` is what remains of it. -/
def Expects (f : Frame F) (rest : List β) : Phase β η → Prop
  | .head buf => buf.length < F.headLen ∧ buf ++ rest = f.bytes
  | .body header buf =>
    header = f.header ∧ buf.length < F.bodyLen header ∧ buf ++ rest = f.body

/-- A reader that starts in front of a whole message expects it. -/
lemma expects_start (hF : 0 < F.headLen) (f : Frame F) : Expects f f.bytes Phase.start :=
  ⟨hF, rfl⟩

/-- A reader inside a message has not been given all of it.

**Proof sketch.** With nothing left, the buffer would be all of the message, but a reader in the
head has fewer bytes than a head has, and one in the body fewer than the header says. -/
lemma Expects.rest_ne_nil {f : Frame F} {rest : List β} {ph : Phase β η}
    (h : Expects f rest ph) : rest ≠ [] := by
  rintro rfl
  cases ph with
  | head buf =>
    have hlen := congrArg List.length h.2
    have := h.1
    simp only [List.append_nil, Frame.bytes, List.length_append, f.head_length] at hlen
    omega
  | body header buf =>
    obtain ⟨rfl, hlt, heq⟩ := h
    rw [List.append_nil] at heq
    rw [heq, f.body_length] at hlt
    exact Nat.lt_irrefl _ hlt

/-- A reader that has just parsed the head of `f` expects its body, or has all of `f`. -/
lemma enterBody_expects (f : Frame F) {rest : List β} (hrest : rest = f.body) :
    (∃ ph, F.enterBody f.header = .more ph ∧ Expects f rest ph) ∨
      (F.enterBody f.header = .received f.header f.body ∧ rest = []) := by
  subst hrest
  unfold Format.enterBody
  split
  · rename_i h0
    have hnil : f.body = [] := List.eq_nil_of_length_eq_zero (f.body_length.trans h0)
    exact .inr ⟨by rw [hnil], hnil⟩
  · rename_i h0
    exact .inl ⟨_, rfl, rfl, Nat.pos_of_ne_zero h0, rfl⟩

/-- **A chunk of the expected message** leaves the reader expecting the rest of the message,
or completes the message and leaves nothing of it behind.

**Proof sketch.** In the head phase the collected symbols are a part of the head exactly while
they are fewer than `headLen`; when they reach it they are the head of `f`, which parses to
its header (`enterBody_expects`). In the body phase the collected symbols are a part of the
body, and all of it once their number is the declared one. -/
theorem absorb_expects {f : Frame F} {chunk rest : List β} {ph : Phase β η}
    (h : Expects f (chunk ++ rest) ph) (hlen : chunk.length ≤ F.want ph) :
    (∃ ph', F.absorb ph chunk = .more ph' ∧ Expects f rest ph') ∨
      (F.absorb ph chunk = .received f.header f.body ∧ rest = []) := by
  cases ph with
  | head buf =>
    obtain ⟨hbuf, heq⟩ := h
    rw [← List.append_assoc] at heq
    simp only [Format.want] at hlen
    simp only [Format.absorb]
    split
    · rename_i hlt
      exact .inl ⟨_, rfl, hlt, heq⟩
    · rename_i hge
      have hhead : (buf ++ chunk).length = f.head.length := by
        rw [f.head_length]
        simp only [List.length_append] at hge ⊢
        omega
      obtain ⟨hh, hb⟩ := List.append_inj heq hhead
      rw [hh, f.parse_head]
      exact enterBody_expects f hb
  | body header buf =>
    obtain ⟨rfl, hbuf, heq⟩ := h
    rw [← List.append_assoc] at heq
    simp only [Format.want] at hlen
    simp only [Format.absorb]
    split
    · rename_i hlt
      exact .inl ⟨_, rfl, rfl, hlt, heq⟩
    · rename_i hge
      have hbody : (buf ++ chunk).length = f.body.length := by
        rw [f.body_length]
        simp only [List.length_append] at hge ⊢
        omega
      have hnil : rest = [] := by
        have := congrArg List.length heq
        simp only [List.length_append] at this hbody
        exact List.eq_nil_of_length_eq_zero (by omega)
      subst hnil
      rw [List.append_nil] at heq
      exact .inr ⟨by rw [heq], rfl⟩

end Framing
