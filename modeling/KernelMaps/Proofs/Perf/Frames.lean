import KernelMaps.Perf.Buffer

/-!
Opening and closing as walks of small steps. A relation between states of a buffer that every small
step keeps to, and that can be put together from step to step, is one that opening and closing keep
to as well.
-/

namespace KernelMaps.PerfBuffer

variable {ρ β : Type} [Backend β]

structure Frame (related : PerfBuffer ρ β → PerfBuffer ρ β → Prop) : Prop where
  trans : ∀ {first second third}, related first second → related second third →
    related first third
  arranged : ∀ buffer readers watched receiver,
    related buffer { buffer with readers, watched, receiver }
  log : ∀ buffer line, related buffer (buffer.log line)
  openRing : ∀ buffer request,
    related buffer { buffer with host := (buffer.host.openRing request).2 }
  closeRing : ∀ buffer ring, related buffer { buffer with host := buffer.host.closeRing ring }
  storeEvent : ∀ buffer cpu fd, related buffer (buffer.onMap (buffer.map.storeEvent cpu fd)).2
  eraseEvent : ∀ buffer cpu, related buffer (buffer.onMap (buffer.map.eraseEvent cpu)).2

namespace Frame

variable {related : PerfBuffer ρ β → PerfBuffer ρ β → Prop} (frame : Frame related)
include frame

theorem refl (buffer : PerfBuffer ρ β) : related buffer buffer :=
  frame.arranged buffer buffer.readers buffer.watched buffer.receiver

theorem watched (buffer : PerfBuffer ρ β) (watched : Option (List Watch)) :
    related buffer { buffer with watched } :=
  frame.arranged buffer buffer.readers watched buffer.receiver

theorem release (buffer : PerfBuffer ρ β) (fd : Nat) : related buffer (buffer.release fd) := by
  rw [PerfBuffer.release]
  split
  · exact frame.refl buffer
  · next ring _ => exact frame.trans (frame.closeRing buffer ring) (frame.watched _ _)

theorem unwatch (buffer : PerfBuffer ρ β) (fd : Nat) : related buffer (buffer.unwatch fd).2 := by
  rw [PerfBuffer.unwatch]
  split
  · exact frame.refl buffer
  · split
    · exact frame.watched buffer _
    · exact frame.refl buffer

theorem abandon (buffer : PerfBuffer ρ β) (cpu : Cpu) (fd : Nat) :
    related buffer (buffer.abandon cpu fd) := by
  have unwatched := frame.unwatch buffer fd
  rw [PerfBuffer.abandon]
  rcases found : buffer.unwatch fd with ⟨errno | _, after⟩
  · rw [found] at unwatched
    exact frame.trans unwatched (frame.trans (frame.log after _) (frame.release _ fd))
  · rw [found] at unwatched
    exact frame.trans unwatched (frame.release after fd)

theorem releases (readers : List PerfReader) (buffer : PerfBuffer ρ β) :
    related buffer (readers.foldl (fun buffer reader => buffer.release reader.fd) buffer) := by
  induction readers generalizing buffer with
  | nil => exact frame.refl buffer
  | cons reader rest ih => exact frame.trans (frame.release buffer reader.fd) (ih _)

theorem install (buffer : PerfBuffer ρ β) (reader : PerfReader) :
    related buffer (buffer.install reader) := by
  rw [PerfBuffer.install]
  exact frame.trans (frame.arranged buffer _ buffer.watched buffer.receiver) (frame.releases _ _)

theorem openOne (buffer : PerfBuffer ρ β) (request : RingRequest) :
    related buffer (buffer.openOne request).2 := by
  rw [PerfBuffer.openOne]
  split
  · exact frame.refl buffer
  · next watched _ =>
      have opened := frame.openRing buffer request
      rcases found : buffer.host.openRing request with ⟨errno | ring, host⟩
      · rw [found] at opened
        exact opened
      · rw [found] at opened
        dsimp only
        split
        · exact frame.trans opened (frame.release _ ring.fd)
        · let started : PerfBuffer ρ β :=
            { buffer with host, watched := some (watched ++ [⟨ring.fd, request.cpu⟩]) }
          have begun : related buffer started := frame.trans opened (frame.watched _ _)
          have stored := frame.storeEvent started request.cpu ring.fd
          refine frame.trans begun ?_
          rcases outcome : started.onMap (started.map.storeEvent request.cpu ring.fd) with
            ⟨error | _, after⟩
          · rw [outcome] at stored
            exact frame.trans stored (frame.abandon after request.cpu ring.fd)
          · rw [outcome] at stored
            exact frame.trans stored (frame.trans (frame.log after _) (frame.install _ _))

theorem openEach (buffer : PerfBuffer ρ β) (options : PerfOptions) (cpus : List Cpu) :
    related buffer (buffer.openEach options cpus).2 := by
  induction cpus generalizing buffer with
  | nil => exact frame.refl buffer
  | cons cpu rest ih =>
      have first := frame.openOne buffer ⟨cpu, options.pages, options.wakeup⟩
      rw [PerfBuffer.openEach]
      rcases found : buffer.openOne ⟨cpu, options.pages, options.wakeup⟩ with ⟨error | _, after⟩
      · rw [found] at first
        exact first
      · rw [found] at first
        exact frame.trans first (ih after)

theorem openOn (buffer : PerfBuffer ρ β) (cpus : List Cpu) (receiver : Nat)
    (options : PerfOptions) : related buffer (buffer.openOn cpus receiver options).2 := by
  rw [PerfBuffer.openOn]
  split
  · exact frame.refl buffer
  · split
    · exact frame.refl buffer
    · let started : PerfBuffer ρ β :=
        { buffer with watched := some [], receiver := some receiver }
      have begun : related buffer started := frame.arranged buffer _ _ _
      have opened := frame.openEach started options cpus
      refine frame.trans begun ?_
      rcases found : started.openEach options cpus with ⟨error | _, after⟩
      · rw [found] at opened
        exact opened
      · rw [found] at opened
        exact frame.trans opened (frame.log after _)

theorem openAll (buffer : PerfBuffer ρ β) (online : Except Errno Bytes) (receiver : Nat)
    (options : PerfOptions) : related buffer (buffer.openAll online receiver options).2 := by
  rw [PerfBuffer.openAll]
  split
  · exact frame.refl buffer
  · exact frame.refl buffer
  · exact frame.openOn buffer _ receiver options

theorem closeOne (buffer : PerfBuffer ρ β) (reader : PerfReader) :
    related buffer (buffer.closeOne reader).2 := by
  have unwatched := frame.unwatch buffer reader.reported
  rw [PerfBuffer.closeOne]
  rcases found : buffer.unwatch reader.reported with ⟨_, after⟩
  rw [found] at unwatched
  have erased := frame.eraseEvent after reader.cpu
  refine frame.trans unwatched (frame.trans erased ?_)
  exact frame.trans (frame.release _ reader.fd) (frame.log _ _)

theorem closeEach (buffer : PerfBuffer ρ β) (readers : List PerfReader) :
    related buffer (buffer.closeEach readers).2 := by
  induction readers generalizing buffer with
  | nil => exact frame.refl buffer
  | cons reader rest ih => exact frame.trans (frame.closeOne buffer reader) (ih _)

theorem close (buffer : PerfBuffer ρ β) : related buffer buffer.close.2 := by
  have begun := frame.arranged buffer [] buffer.watched buffer.receiver
  refine frame.trans begun (frame.trans (frame.closeEach _ buffer.readers) ?_)
  exact frame.arranged _ _ none none

end Frame

end KernelMaps.PerfBuffer
