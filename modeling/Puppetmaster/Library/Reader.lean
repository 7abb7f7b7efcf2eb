import Puppetmaster.Library.Layout

namespace Puppetmaster.Library

-- A program that takes bytes from the front of a stream, and fails where there are too few.
abbrev Reader := StateT (List Byte) Option

namespace Reader

variable {α β γ : Type} {p : Reader α} {bytes : List Byte} {a : α}

-- These bytes are all that is taken, whatever follows them.
def Reads (p : Reader α) (bytes : List Byte) (a : α) : Prop :=
  ∀ rest, p (bytes ++ rest) = some (a, rest)

theorem reads_layout (layout : Layout α) (a : α) : Reads layout.read (layout.write a) a :=
  layout.read_write a

theorem reads_pure (a : α) : Reads (pure a) [] a := fun _ => rfl

theorem Reads.bind {next : α → Reader β} {back : List Byte} {b : β} (hp : Reads p bytes a)
    (hnext : Reads (next a) back b) : Reads (p >>= next) (bytes ++ back) b := by
  intro rest
  show (p (bytes ++ back ++ rest)).bind (fun x => next x.1 x.2) = some (b, rest)
  rw [List.append_assoc, hp, Option.bind_some]
  exact hnext rest

-- The last program and what is made of its value.
theorem Reads.bind_pure (hp : Reads p bytes a) (f : α → β) : Reads (p >>= fun a => pure (f a)) bytes (f a) := by
  have h : Reads (p >>= fun a => pure (f a)) (bytes ++ []) (f a) := hp.bind (reads_pure (f a))
  rwa [List.append_nil] at h

theorem Reads.map (hp : Reads p bytes a) (f : α → β) : Reads (f <$> p) bytes (f a) := hp.bind_pure f

theorem reads_mapM {next : γ → Reader β} {write : γ → List Byte} {value : γ → β} {xs : List γ}
    (hnext : ∀ x ∈ xs, Reads (next x) (write x) (value x)) :
    Reads (xs.mapM next) (xs.flatMap write) (xs.map value) := by
  induction xs with
  | nil => exact reads_pure []
  | cons x xs ih =>
      obtain ⟨hx, hxs⟩ := List.forall_mem_cons.mp hnext
      rw [List.mapM_cons, List.flatMap_cons, List.map_cons]
      exact hx.bind ((ih hxs).bind_pure (value x :: ·))

-- The same program once for each value that was written.
def times (p : Reader α) : ℕ → Reader (List α)
  | 0 => pure []
  | n + 1 => do
      let a ← p
      let as ← times p n
      return a :: as

theorem reads_times {write : γ → List Byte} {value : γ → α} {xs : List γ}
    (hp : ∀ x ∈ xs, Reads p (write x) (value x)) :
    Reads (times p xs.length) (xs.flatMap write) (xs.map value) := by
  induction xs with
  | nil => exact reads_pure []
  | cons x xs ih =>
      obtain ⟨hx, hxs⟩ := List.forall_mem_cons.mp hp
      exact hx.bind ((ih hxs).bind_pure (value x :: ·))

end Reader

end Puppetmaster.Library
