import Mathlib.Data.List.Count
import TestServer.Lib.Loop

/-! # The loops of the sample client

    `epoll_client`, `select_client` and `poll_client` of
    `sample_client/test_client.cpp` serve one connected socket:

    ```
    // epoll_client, behind the registration of socket_fd and write_message
    while(true) {
        int wait_fds = epoll_wait(epoll_fd, evs, 1, -1);
        if (wait_fds <= -1) { close(epoll_fd); close(socket_fd); return -1; }
        if (wait_fds == 0) continue;
        count = read_message(evs[0].data.fd);
        if (count < 0) { close(epoll_fd); close(socket_fd); return -1; }
        break;
    }
    close(epoll_fd); close(socket_fd);
    return 0;

    // select_client
    while (1) {
        FD_ZERO(&rfds); FD_ZERO(&wfds);
        FD_SET(max_fd, &rfds); FD_SET(max_fd, &wfds);
        int ret = select(max_fd + 1, &rfds, &wfds, NULL, &tv);
        if (ret <= 0) break;
        if (FD_ISSET(max_fd, &rfds)) {
            int count = read_message(socket_fd);
            if (count < 0) { close(socket_fd); return -1; }
        }
        if (FD_ISSET(max_fd, &wfds)) {
            int count = write_message(socket_fd);
            if (count < 0) { close(socket_fd); return -1; }
        }
        sleep(1);
    }

    // poll_client
    int ret = poll(&pfd, 1, 0);
    if (ret == -1) { close(socket_fd); return -1; }
    while (1) {
        if ((pfd.revents & POLLIN) == POLLIN) {
            int count = read_message(socket_fd);
            if (count < 0) { close(socket_fd); return -1; }
            count = write_message(socket_fd);
            if (count < 0) { close(socket_fd); return -1; }
            break;
        }
    }
    close(socket_fd);
    return 0;
    ```

    What the system calls and the callbacks answer is given for every call, or
    for every pass that may make one.

    * `epollPass`, `selectPass`, `pollPass`: one pass of each loop.
    * `EpollReturns`, `SelectReturns`, `PollReturns`: the functions end with an
      `Outcome`.
-/

open Loop

namespace Client

/-! ### Calls and outcomes -/

/-- A system call or callback, with the descriptor it is about. -/
inductive Call where
  | epoll_create
  | epoll_ctl_add (fd : Int)
  | epoll_wait
  | select (fd : Int)
  | poll (fd : Int)
  | read_message (fd : Int)
  | write_message (fd : Int)
  | close (fd : Int)
  deriving DecidableEq

/-- The calls a function made, and its value; there is none behind a last line that is not a
    `return`. -/
structure Outcome where
  calls : List Call
  ret : Option Int
  deriving DecidableEq

/-- The clean-up of an exit: the descriptors are closed, and the function returns. -/
def leave {σ : Type} (calls : List Call) (fds : List Int) (ret : Int) : Pass σ Outcome :=
  .leave { calls := calls ++ fds.map Call.close, ret := some ret }

/-- The passes made, and the calls in them. -/
structure State where
  i : Nat
  calls : List Call

variable {socket_fd : Int}

/-! ### `epoll_client` -/

/-- What the calls of `epoll_client` answer. -/
structure EpollAnswers (socket_fd : Int) where
  /-- What `epoll_create` answers. -/
  epoll_fd : Int
  epoll_ctl : Int
  write_message : Int
  epoll_wait : Nat → Int
  read_message : Int
  /-- It does not give out the descriptor of the open socket. -/
  epoll_fd_ne : epoll_fd ≠ socket_fd

/-- `epoll_client` up to its loop. -/
def epollStart (a : EpollAnswers socket_fd) : Pass State Outcome :=
  let calls := [.epoll_create, .epoll_ctl_add socket_fd]
  if a.epoll_ctl < 0 then leave calls [a.epoll_fd, socket_fd] (-1)
  else
    let calls := calls ++ [.write_message socket_fd]
    if a.write_message < 0 then leave calls [a.epoll_fd, socket_fd] (-1)
    else .again { i := 0, calls }

def epollPass (a : EpollAnswers socket_fd) (s : State) : Pass State Outcome :=
  let wait_fds := a.epoll_wait s.i
  let calls := s.calls ++ [.epoll_wait]
  if wait_fds ≤ -1 then leave calls [a.epoll_fd, socket_fd] (-1)
  else if wait_fds = 0 then .again { i := s.i + 1, calls }
  else
    -- `evs[0].data.fd` is `socket_fd`, the only descriptor that was registered
    let calls := calls ++ [.read_message socket_fd]
    if a.read_message < 0 then leave calls [a.epoll_fd, socket_fd] (-1)
    else leave calls [a.epoll_fd, socket_fd] 0

/-- `epoll_client` ends. -/
def EpollReturns (a : EpollAnswers socket_fd) : Outcome → Prop :=
  ReturnsFrom (epollPass a) (epollStart a)

/-! ### `select_client` -/

/-- What the calls of each pass of `select_client` answer; `rfds` and `wfds` are what `select` left
    in the sets for the socket. -/
structure SelectAnswers where
  select : Nat → Int
  rfds : Nat → Bool
  wfds : Nat → Bool
  read_message : Nat → Int
  write_message : Nat → Int

def selectPass (socket_fd : Int) (a : SelectAnswers) (s : State) : Pass State Outcome :=
  let calls := s.calls ++ [.select socket_fd]
  -- the loop is left, and behind it the function ends
  if a.select s.i ≤ 0 then .leave { calls, ret := none }
  else
    let calls := if a.rfds s.i then calls ++ [.read_message socket_fd] else calls
    if a.rfds s.i ∧ a.read_message s.i < 0 then leave calls [socket_fd] (-1)
    else
      let calls := if a.wfds s.i then calls ++ [.write_message socket_fd] else calls
      if a.wfds s.i ∧ a.write_message s.i < 0 then leave calls [socket_fd] (-1)
      else .again { i := s.i + 1, calls }

/-- `select_client` ends. -/
def SelectReturns (socket_fd : Int) (a : SelectAnswers) : Outcome → Prop :=
  Returns (selectPass socket_fd a) { i := 0, calls := [] }

/-! ### `poll_client` -/

/-- `POLLIN` of `poll.h`. -/
def POLLIN : UInt16 := 1

/-- What the calls of `poll_client` answer: `poll` at every call, with the `revents` it sets, and
    the callbacks. -/
structure PollAnswers where
  poll : Nat → Int
  revents : Nat → UInt16
  read_message : Int
  write_message : Int

/-- `pfd.revents`, and the calls made. -/
structure PollState where
  revents : UInt16
  calls : List Call

/-- `poll_client` up to its loop. -/
def pollStart (socket_fd : Int) (a : PollAnswers) : Pass PollState Outcome :=
  let calls := [.poll socket_fd]
  if a.poll 0 = -1 then leave calls [socket_fd] (-1)
  else .again { revents := a.revents 0, calls }

def pollPass (socket_fd : Int) (a : PollAnswers) (s : PollState) : Pass PollState Outcome :=
  if s.revents &&& POLLIN = POLLIN then
    let calls := s.calls ++ [.read_message socket_fd]
    if a.read_message < 0 then leave calls [socket_fd] (-1)
    else
      let calls := calls ++ [.write_message socket_fd]
      if a.write_message < 0 then leave calls [socket_fd] (-1)
      else leave calls [socket_fd] 0
  else .again s

/-- `poll_client` ends. -/
def PollReturns (socket_fd : Int) (a : PollAnswers) : Outcome → Prop :=
  ReturnsFrom (pollPass socket_fd a) (pollStart socket_fd a)

end Client
