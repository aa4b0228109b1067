namespace Chario

/-! Numbers that several parts of the driver name. -/

def eintr : Int := 4
def eio : Int := 5
def enomem : Int := 12
def efault : Int := 14
def enodev : Int := 19
def einval : Int := 22
def enospc : Int := 28
def espipe : Int := 29

def nvmeQDepth : Nat := 1024

def nvmeScAbortReq : Nat := 0x7
def nvmeScDnr : Nat := 0x4000

/-- The status that `nvme_cancel_queue_ios` makes up; `dying` is
`blk_queue_dying` of the queue of the request. -/
def cancelStatus (dying : Bool) : Nat :=
  if dying then nvmeScAbortReq + nvmeScDnr else nvmeScAbortReq

end Chario
