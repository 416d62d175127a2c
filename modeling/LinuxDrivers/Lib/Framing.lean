/-
# `LinuxDrivers.Lib.Framing` — streams of items that say where they end

A *framing* has a function `fetch` that takes one item off a stream, and an encoding of the items.
The two laws say that `fetch` finds the item that was encoded, whatever follows it, and that what
`fetch` takes off is the encoding of an item.

`scan` is the loop that reads a stream: an item is fetched and handled, until a handler or `fetch`
fails, or the stream is at its end after an item.  `scan_ok_iff` says which streams it accepts:
those that are the encodings of one item or more, one after the other, whose handlers all succeed
in turn.
-/
import Mathlib.Data.List.Basic

namespace LinuxDrivers.Lib

structure Framing (β τ : Type) where
  fetch : List β → Option (τ × List β)
  encode : τ → List β
  ok : τ → Prop
  fetch_encode : ∀ t rest, ok t → fetch (encode t ++ rest) = some (t, rest)
  encode_fetch : ∀ bs t rest, fetch bs = some (t, rest) → ok t ∧ bs = encode t ++ rest
  encode_pos : ∀ t, 0 < (encode t).length

namespace Framing

variable {β τ σ ε : Type} (F : Framing β τ)

/-- The items are handled one after the other; the first failure is the result. -/
def handle (step : σ → τ → Except ε σ) : σ → List τ → Except ε σ
  | s, [] => .ok s
  | s, t :: ts =>
      match step s t with
      | .error e => .error e
      | .ok s' => handle step s' ts

/-- The loop; the number bounds its iterations. -/
def scan (step : σ → τ → Except ε σ) (bad : ε) : Nat → σ → List β → Except ε σ
  | 0, _, _ => .error bad
  | n + 1, s, bs =>
      match F.fetch bs with
      | none => .error bad
      | some (t, rest) =>
          match step s t with
          | .error e => .error e
          | .ok s' =>
              match rest with
              | [] => .ok s'
              | b :: rest' => scan step bad n s' (b :: rest')

/-- What the stream of these items is. -/
def stream (ts : List τ) : List β := ts.flatMap F.encode

variable {F} {step : σ → τ → Except ε σ} {bad : ε}

theorem handle_cons_ok {s s' : σ} {t : τ} {ts : List τ} :
    handle step s (t :: ts) = .ok s' ↔ ∃ s₁, step s t = .ok s₁ ∧ handle step s₁ ts = .ok s' := by
  rw [handle]
  cases hstep : step s t with
  | error e => simp
  | ok s₁ => simp

theorem length_lt_stream_cons (t : τ) (ts : List τ) :
    (F.stream ts).length < (F.stream (t :: ts)).length := by
  have hpos := F.encode_pos t
  simp only [stream, List.flatMap_cons, List.length_append]
  omega

theorem stream_eq_nil {ts : List τ} (h : F.stream ts = []) : ts = [] := by
  cases ts with
  | nil => rfl
  | cons t ts =>
      have hlt := length_lt_stream_cons (F := F) t ts
      rw [h] at hlt
      exact absurd hlt (Nat.not_lt_zero _)

/-- Every item takes something of the stream. -/
theorem length_le_stream (ts : List τ) : ts.length ≤ (F.stream ts).length := by
  induction ts with
  | nil => exact Nat.zero_le _
  | cons t ts ih =>
      have hlt := length_lt_stream_cons (F := F) t ts
      rw [List.length_cons]
      omega

/-- An encoded item and its handler, and then the rest. -/
theorem scan_stream {n : Nat} {s s' : σ} {t : τ} {ts : List τ} (hok : ∀ t' ∈ t :: ts, F.ok t')
    (hn : (F.stream (t :: ts)).length ≤ n) (h : handle step s (t :: ts) = .ok s') :
    F.scan step bad n s (F.stream (t :: ts)) = .ok s' := by
  induction ts generalizing n s t with
  | nil =>
      obtain ⟨s₁, hstep, hdone⟩ := handle_cons_ok.mp h
      cases hdone
      have hlt := length_lt_stream_cons (F := F) t []
      obtain ⟨m, rfl⟩ : ∃ m, n = m + 1 := Nat.exists_eq_succ_of_ne_zero (by omega)
      rw [scan, stream, List.flatMap_cons, F.fetch_encode t _ (hok t List.mem_cons_self)]
      simp [hstep]
  | cons t' ts ih =>
      obtain ⟨s₁, hstep, hrest⟩ := handle_cons_ok.mp h
      have hlt := length_lt_stream_cons (F := F) t (t' :: ts)
      obtain ⟨m, rfl⟩ : ∃ m, n = m + 1 := Nat.exists_eq_succ_of_ne_zero (by omega)
      have hscan := ih (n := m) (fun t'' hmem => hok t'' (List.mem_cons_of_mem _ hmem))
        (by omega) hrest
      have hne : F.stream (t' :: ts) ≠ [] := fun hnil => by cases stream_eq_nil hnil
      obtain ⟨b, rest', hcons⟩ := List.exists_cons_of_ne_nil hne
      rw [scan, stream, List.flatMap_cons, F.fetch_encode t _ (hok t List.mem_cons_self)]
      rw [stream] at hcons hscan
      simp only [hstep, hcons]
      rw [hcons] at hscan
      exact hscan

/-- A stream that is accepted is the stream of its items. -/
theorem stream_of_scan {n : Nat} {s s' : σ} {bs : List β} (h : F.scan step bad n s bs = .ok s') :
    ∃ t ts, (∀ t' ∈ t :: ts, F.ok t') ∧ bs = F.stream (t :: ts) ∧
      handle step s (t :: ts) = .ok s' := by
  induction n generalizing s bs with
  | zero => cases h
  | succ n ih =>
      rw [scan] at h
      split at h
      · cases h
      · rename_i t rest hfetch
        obtain ⟨hok, hbs⟩ := F.encode_fetch bs t rest hfetch
        split at h
        · cases h
        · rename_i s₁ hstep
          split at h
          · cases h
            refine ⟨t, [], by simpa using hok, by simpa [stream] using hbs, ?_⟩
            exact handle_cons_ok.mpr ⟨s', hstep, rfl⟩
          · rename_i b rest'
            obtain ⟨t', ts, hall, hrest, hhandle⟩ := ih h
            refine ⟨t, t' :: ts, ?_, ?_, handle_cons_ok.mpr ⟨s₁, hstep, hhandle⟩⟩
            · intro t'' hmem
              rcases List.mem_cons.mp hmem with rfl | hmem
              · exact hok
              · exact hall t'' hmem
            · rw [hbs, hrest]
              rfl

/-- The streams that are accepted, and with which result. -/
theorem scan_ok_iff (bad : ε) {n : Nat} {s s' : σ} {bs : List β} (hn : bs.length ≤ n) :
    F.scan step bad n s bs = .ok s' ↔
      ∃ t ts, (∀ t' ∈ t :: ts, F.ok t') ∧ bs = F.stream (t :: ts) ∧
        handle step s (t :: ts) = .ok s' := by
  constructor
  · exact stream_of_scan
  · rintro ⟨t, ts, hok, rfl, hhandle⟩
    exact scan_stream hok hn hhandle

theorem handle_append_ok {s s' : σ} {ts us : List τ} :
    handle step s (ts ++ us) = .ok s' ↔
      ∃ s₁, handle step s ts = .ok s₁ ∧ handle step s₁ us = .ok s' := by
  induction ts generalizing s with
  | nil => simp [handle]
  | cons t ts ih =>
      rw [List.cons_append]
      simp only [handle_cons_ok, ih]
      constructor
      · rintro ⟨s₁, hstep, s₂, hts, hus⟩
        exact ⟨s₂, ⟨s₁, hstep, hts⟩, hus⟩
      · rintro ⟨s₂, ⟨s₁, hstep, hts⟩, hus⟩
        exact ⟨s₁, hstep, s₂, hts, hus⟩

/-- What every handler keeps, with the number of items handled. -/
theorem handle_invariant (I : Nat → σ → Prop)
    (hstep : ∀ n s t s', I n s → step s t = .ok s' → I (n + 1) s') {n : Nat} {s s' : σ}
    {ts : List τ} (hI : I n s) (h : handle step s ts = .ok s') : I (n + ts.length) s' := by
  induction ts generalizing n s with
  | nil =>
      cases h
      exact hI
  | cons t ts ih =>
      obtain ⟨s₁, hone, hrest⟩ := handle_cons_ok.mp h
      have hgoal := ih (hstep n s t s₁ hI hone) hrest
      rw [List.length_cons, Nat.add_comm ts.length 1, ← Nat.add_assoc]
      exact hgoal

end Framing

end LinuxDrivers.Lib
