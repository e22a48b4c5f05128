import KeyLight.Machine.Coroutine
import KeyLight.Realm.Handle

/-!
# Worlds

A world is a realm together with its threads: all that running a script can read or change.
-/

namespace KeyLight

/-- A realm and its threads. -/
structure World extends Realm where
  scheduler : Scheduler Coroutine

namespace World

/-- The world with another realm. -/
def withRealm (w : World) (r : Realm) : World := { w with toRealm := r }

/-- Changes the heap. -/
@[inline] def updateHeap (w : World) (f : Heap → Heap) : World := { w with heap := f w.heap }

/-- Adds to the journal. -/
def tell (w : World) (n : Notice) : World := { w with journal := w.journal.push n }

/-- Makes an object. -/
def newObject (w : World) (o : Object) : Value × World :=
  (.object w.heap.objects.size, w.updateHeap (·.addObject o))

/-- The name of the state of a thread. -/
def stateName (w : World) (h : ThreadHandle) : String :=
  ((w.scheduler.state? h.id).map ThreadState.name).getD ""

end World

end KeyLight
