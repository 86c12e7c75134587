import Mathlib.Data.Finmap

/-!
# The descriptors that the event loop watches

`fd_callbacks_` and the interest list that the kernel keeps for `epoll_fd_`.  Whether `epoll_ctl`
succeeds is up to the kernel, and so is an argument of the operation; the operations here
are what a call that succeeds does.  `fd_mutex_` is recursive and is left out.
-/

namespace PPServer.EventLoop

/-! ## Events -/

def epollIn : UInt32 := 0x001

def epollPri : UInt32 := 0x002

def epollOut : UInt32 := 0x004

def epollErr : UInt32 := 0x008

def epollHup : UInt32 := 0x010

def epollEt : UInt32 := 0x80000000

def epollRead : UInt32 := epollIn ||| epollPri

def epollWrite : UInt32 := epollOut

def epollError : UInt32 := epollErr ||| epollHup

/-- One of the flags is among the events. -/
def Any (events flags : UInt32) : Prop := events &&& flags ≠ 0

instance (events flags : UInt32) : Decidable (Any events flags) :=
  inferInstanceAs (Decidable (_ ≠ _))

/-- Events that are registered with `EPOLLET` report edges. -/
theorem any_or_epollEt (events : UInt32) : Any (events ||| epollEt) epollEt := by
  have absorbed : (events ||| epollEt) &&& epollEt = epollEt := by
    rw [← UInt32.toBitVec_inj]
    ext index
    simp [UInt32.toBitVec_and, UInt32.toBitVec_or]
    grind
  rw [Any, absorbed]
  decide

/-! ## Descriptors -/

structure Descriptors (Callback : Type) where
  /-- `fd_callbacks_`. -/
  callbacks : Finmap fun _ : Int => Callback := ∅
  /-- The interest list, with the events that are watched. -/
  interest : Finmap fun _ : Int => UInt32 := ∅

/-- The outcomes of `epoll_ctl(EPOLL_CTL_ADD)`. -/
inductive EpollAdd where
  | done
  | failed (text : List UInt8)
  deriving DecidableEq

namespace Descriptors

variable {Callback : Type} (descriptors : Descriptors Callback)

/-- `AddFd`, which always asks for edges. -/
def addFd (fd : Int) (events : UInt32) (callback : Callback) : Descriptors Callback where
  callbacks := descriptors.callbacks.insert fd callback
  interest := descriptors.interest.insert fd (events ||| epollEt)

def updateFd (fd : Int) (events : UInt32) : Descriptors Callback :=
  { descriptors with
    interest :=
      if fd ∈ descriptors.interest then descriptors.interest.insert fd (events ||| epollEt)
      else descriptors.interest }

/-- `RemoveFd`, which erases the callback also if `epoll_ctl` fails. -/
def removeFd (fd : Int) : Descriptors Callback where
  callbacks := descriptors.callbacks.erase fd
  interest := descriptors.interest.erase fd

/-- The kernel takes a descriptor that is closed from the interest list. -/
def closed (fd : Int) : Descriptors Callback :=
  { descriptors with interest := descriptors.interest.erase fd }

@[simp] theorem addFd_callbacks (fd : Int) (events : UInt32) (callback : Callback) :
    (descriptors.addFd fd events callback).callbacks = descriptors.callbacks.insert fd callback :=
  rfl

end Descriptors

end PPServer.EventLoop
